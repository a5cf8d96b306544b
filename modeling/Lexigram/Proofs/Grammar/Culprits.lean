import Lexigram.Proofs.Grammar.Edits
import Lexigram.Proofs.Grammar.Plans

/-!
Culprits. A grammar that cannot be made plain has a rule without alternatives,
or a group without members somewhere in a rule. The fault names the rule of the
grammar if the group stands directly in it. A group inside another one is
reported for the symbol made up for the group around it, which the grammar does
not have once it is left as it was (`Grammar.makePlain_names_culprit_iff`).
-/

namespace Lexigram

open Token (symbolCount)

/-! ## Names -/

theorem syntheticName_ne_unknown (n : Nat) : syntheticName n ≠ "?" := by
  intro h
  have list := congrArg String.toList h
  rw [toList_syntheticName] at list
  cases list

section Names

variable {symbols : List Symbol} {id : Nat}

theorem nameIn_of_length_le (h : symbols.length ≤ id) :
    nameIn symbols id = "?" := by
  rw [nameIn, List.getElem?_eq_none h]

theorem nameIn_grown_of_lt (h : id < symbols.length) (count : Nat) :
    nameIn (grown symbols count) id = nameIn symbols id := by
  induction count with
  | zero => rfl
  | succ count ih =>
    have lt : id < (grown symbols count).length := by
      rw [length_grown]
      omega
    rw [← ih, nameIn, nameIn, grown, List.getElem?_append_left lt]

/-- A symbol that is made up has a made-up name. -/
theorem exists_nameIn_grown {count : Nat} (ge : symbols.length ≤ id)
    (lt : id < symbols.length + count) :
    ∃ n, nameIn (grown symbols count) id = syntheticName n := by
  induction count with
  | zero => omega
  | succ count ih =>
    by_cases h : id < symbols.length + count
    · obtain ⟨n, named⟩ := ih h
      refine ⟨n, ?_⟩
      rw [← named]
      exact nameIn_grown_of_lt (by rw [length_grown]; exact h) 1
    · obtain rfl : id = (grown symbols count).length := by
        rw [length_grown]
        omega
      exact ⟨_, by rw [nameIn, grown, List.getElem?_concat_length]; rfl⟩

theorem length_lt_length_grown_one (symbols : List Symbol) :
    symbols.length < (grown symbols 1).length := by
  rw [length_grown]
  exact Nat.lt_add_one _

theorem nameIn_grown_one_ne (symbols : List Symbol) :
    nameIn (grown symbols 1) symbols.length ≠ "?" := by
  obtain ⟨n, named⟩ := exists_nameIn_grown (Nat.le_refl symbols.length)
    (Nat.lt_add_one symbols.length)
  rw [named]
  exact syntheticName_ne_unknown n

/-- Symbols that are made up leave all names as they are but for those they have
themselves. -/
theorem nameIn_grown_eq_iff {count : Nat} :
    nameIn (grown symbols count) id = nameIn symbols id ↔
      ¬ (symbols.length ≤ id ∧ id < symbols.length + count) := by
  constructor
  · intro h made
    obtain ⟨n, named⟩ := exists_nameIn_grown made.1 made.2
    rw [named, nameIn_of_length_le made.1] at h
    exact syntheticName_ne_unknown n h
  · intro h
    by_cases lt : id < symbols.length
    · exact nameIn_grown_of_lt lt count
    · have le : (grown symbols count).length ≤ id := by
        rw [length_grown]
        omega
      rw [nameIn_of_length_le le, nameIn_of_length_le (Nat.le_of_not_lt lt)]

end Names

/-! ## Groups without members -/

/-- Whether a fault is reported for a symbol from `bound` on, under a name. -/
def GrammarFault.IsFrom (bound : Nat) (fault : GrammarFault) : Prop :=
  ∃ id name how, fault = .malformed id name how ∧ bound ≤ id ∧ name ≠ "?"

namespace Token

instance (ts : List (Token SymbolId)) : Decidable (Filled ts) :=
  inferInstanceAs (Decidable (∀ t ∈ postorderAll ts, t.isEmptyGroup = false))

theorem filled_iff {ts : List (Token SymbolId)} :
    Filled ts ↔ ∀ t ∈ ts, Filled [t] := by
  simp only [Filled, postorderAll_eq_flatMap, List.mem_flatMap,
    List.flatMap_cons, List.flatMap_nil, List.append_nil]
  constructor
  · intro h t mem u inside
    exact h u ⟨t, mem, inside⟩
  · intro h u inside
    obtain ⟨t, mem, inside⟩ := inside
    exact h t mem u inside

mutual

theorem obstacle?_eq_none_iff (symbols : List Symbol) (owner : SymbolId)
    (t : Token SymbolId) :
    obstacle? symbols owner t = none ↔ Filled [t] := by
  match t with
  | .literal p => exact iff_of_true rfl (filled_of_isGroup_eq_false rfl)
  | .reference target => exact iff_of_true rfl (filled_of_isGroup_eq_false rfl)
  | .group m members =>
    rw [obstacle?, filled_group]
    cases members with
    | nil => simp
    | cons t ts =>
      simp only [List.isEmpty_cons, Bool.false_eq_true, if_false, ne_eq,
        reduceCtorEq, not_false_eq_true, true_and]
      exact obstacleAll?_eq_none_iff (grown symbols 1) symbols.length (t :: ts)

/-- There is a fault unless all groups have members. -/
theorem obstacleAll?_eq_none_iff (symbols : List Symbol) (owner : SymbolId)
    (ts : List (Token SymbolId)) :
    obstacleAll? symbols owner ts = none ↔ Filled ts := by
  match ts with
  | [] => exact iff_of_true rfl filled_nil
  | t :: ts =>
    rw [obstacleAll?, Option.or_eq_none_iff,
      filled_cons, obstacle?_eq_none_iff symbols owner t,
      obstacleAll?_eq_none_iff (grown symbols (symbolCount [t])) owner ts]

end

mutual

/-- What is reported for a symbol from `bound` on stays so, as inside of groups
it is reported for later ones. -/
theorem isFrom_of_obstacle? {bound : Nat}
    {fault : GrammarFault} (symbols : List Symbol)
    (owner : Nat) (t : Token SymbolId) (le : bound ≤ owner)
    (known : owner < symbols.length) (named : nameIn symbols owner ≠ "?")
    (reported : obstacle? symbols owner t = some fault) :
    fault.IsFrom bound := by
  match t with
  | .literal p => cases reported
  | .reference target => cases reported
  | .group m members =>
    rw [obstacle?] at reported
    split at reported
    · obtain rfl := Option.some.inj reported
      exact ⟨owner, _, _, rfl, le, named⟩
    · -- inside the group the rule is the one made up for it
      exact isFrom_of_obstacleAll? (grown symbols 1) symbols.length members
        (by omega) (length_lt_length_grown_one symbols)
        (nameIn_grown_one_ne symbols) reported

theorem isFrom_of_obstacleAll? {bound : Nat}
    {fault : GrammarFault} (symbols : List Symbol)
    (owner : Nat) (ts : List (Token SymbolId)) (le : bound ≤ owner)
    (known : owner < symbols.length) (named : nameIn symbols owner ≠ "?")
    (reported : obstacleAll? symbols owner ts = some fault) :
    fault.IsFrom bound := by
  match ts with
  | [] => cases reported
  | t :: ts =>
    rw [obstacleAll?, Option.or_eq_some_iff] at reported
    rcases reported with reported | ⟨-, reported⟩
    · exact isFrom_of_obstacle? symbols owner t le known named reported
    · have lt : owner < (grown symbols (symbolCount [t])).length := by
        rw [length_grown]
        omega
      refine isFrom_of_obstacleAll? (grown symbols (symbolCount [t])) owner ts
        le lt ?_ reported
      rw [nameIn_grown_of_lt known]
      exact named

end

end Token

/-! ## The first obstacle -/

theorem exists_first {α : Type} {P : α → Prop} {xs : List α}
    (h : ¬ ∀ x ∈ xs, P x) :
    ∃ before x after, xs = before ++ x :: after ∧ (∀ y ∈ before, P y) ∧
      ¬ P x := by
  induction xs with
  | nil => exact absurd (List.forall_mem_nil P) h
  | cons x xs ih =>
    by_cases passes : P x
    · have rest : ¬ ∀ y ∈ xs, P y :=
        fun others => h (List.forall_mem_cons.mpr ⟨passes, others⟩)
      obtain ⟨before, y, after, same, passed, fails⟩ := ih rest
      exact ⟨x :: before, y, after, by rw [same, List.cons_append],
        List.forall_mem_cons.mpr ⟨passes, passed⟩, fails⟩
    · exact ⟨[], x, xs, rfl, List.forall_mem_nil P, passes⟩

theorem filled_flatten {as : List (Alternative SymbolId)} :
    Token.Filled as.flatten ↔ ∀ a ∈ as, Token.Filled a := by
  simp only [Token.Filled, Token.postorderAll_eq_flatMap,
    List.mem_flatMap, List.mem_flatten]
  constructor
  · intro h a chosen u inside
    obtain ⟨t, mem, inside⟩ := inside
    exact h u ⟨t, ⟨a, chosen, mem⟩, inside⟩
  · intro h u inside
    obtain ⟨t, ⟨a, chosen, mem⟩, inside⟩ := inside
    exact h a chosen u ⟨t, mem, inside⟩

/-- Where the rules of a grammar cannot be made plain: `done` are the tokens in
front of the first obstacle. It is that the rule of `id` has no alternatives, or
else the token at `place` of this rule. -/
inductive Grammar.StopsAt (g : Grammar) :
    SymbolId → List (Token SymbolId) → Option (Token SymbolId) → Prop where
  | noAlternatives {before id after}
      (rules : g.rules = before ++ (id, []) :: after)
      (filled : ∀ rule ∈ before, IsFilledRule rule.2) :
      StopsAt g id (Rules.tokens before) none
  | token {before id as after ts t us}
      (rules : g.rules = before ++ (id, as) :: after)
      (filled : ∀ rule ∈ before, IsFilledRule rule.2)
      (tokens : as.flatten = ts ++ t :: us) (first : Token.Filled ts)
      (fails : ¬ Token.Filled [t]) :
      StopsAt g id (Rules.tokens before ++ ts) (some t)

theorem exists_stopsAt {g : Grammar} (h : ¬ g.IsFilled) :
    ∃ id done place, g.StopsAt id done place := by
  obtain ⟨before, ⟨id, as⟩, after, rules, passed, fails⟩ := exists_first h
  by_cases empty : as = []
  · subst empty
    exact ⟨id, _, _, .noAlternatives rules passed⟩
  · have flat : ¬ ∀ t ∈ as.flatten, Token.Filled [t] := by
      rw [← Token.filled_iff, filled_flatten]
      intro all
      exact fails ⟨empty, all⟩
    obtain ⟨ts, t, us, tokens, first, last⟩ := exists_first flat
    exact ⟨id, _, _, .token rules passed tokens
      (Token.filled_iff.mpr first) last⟩

theorem rulesObstacle?_append (symbols : List Symbol) (rules others : Rules) :
    rulesObstacle? symbols (rules ++ others) =
      (rulesObstacle? symbols rules).or
      (rulesObstacle? (grown symbols (symbolCount rules.tokens)) others) := by
  induction rules generalizing symbols with
  | nil => rfl
  | cons rule rules ih =>
    obtain ⟨id, as⟩ := rule
    rw [List.cons_append, rulesObstacle?, rulesObstacle?, ih, grown_grown,
      Rules.tokens_cons, Token.symbolCount_append, Option.or_assoc]

theorem rulesObstacle?_eq_none {rules : Rules}
    (filled : ∀ rule ∈ rules, IsFilledRule rule.2) (symbols : List Symbol) :
    rulesObstacle? symbols rules = none := by
  induction rules generalizing symbols with
  | nil => rfl
  | cons rule rules ih =>
    obtain ⟨id, as⟩ := rule
    obtain ⟨⟨nonempty, all⟩, rest⟩ := List.forall_mem_cons.mp filled
    rw [rulesObstacle?, ih rest, Option.or_none, ruleObstacle?,
      if_neg (by simpa using nonempty), Token.obstacleAll?_eq_none_iff]
    exact filled_flatten.mpr all

namespace Grammar

variable {g : Grammar} {id : Nat} {done : List (Token SymbolId)}
  {place : Option (Token SymbolId)}

/-- What is reported for a token with a group that has no members: the rule, if
the token is the group, and else a symbol that is made up. -/
theorem exists_obstacle?_of_not_filled {bound : Nat} {symbols : List Symbol}
    (le : bound ≤ symbols.length) (owner : SymbolId) {t : Token SymbolId}
    (fails : ¬ Token.Filled [t]) :
    ∃ fault, Token.obstacle? symbols owner t = some fault ∧
      if t.isEmptyGroup = true then
        fault = .malformed owner (nameIn symbols owner) .emptyGroup
        else fault.IsFrom bound := by
  rw [← Token.obstacle?_eq_none_iff symbols owner] at fails
  obtain ⟨fault, reported⟩ := Option.ne_none_iff_exists'.mp fails
  refine ⟨fault, reported, ?_⟩
  match t, reported with
  | .group m [], reported => exact (Option.some.inj reported).symm
  | .group m (u :: us), reported =>
    exact Token.isFrom_of_obstacleAll? (grown symbols 1) symbols.length
      (u :: us) le (length_lt_length_grown_one symbols)
      (nameIn_grown_one_ne symbols) reported

/-- What is reported at the first obstacle: the rule, or a symbol that is made
up. -/
theorem StopsAt.fault (stops : g.StopsAt id done place) :
    ∃ fault, rulesObstacle? g.symbols g.rules = some fault ∧
      if place.all Token.isEmptyGroup = true then
        ∃ how, fault = .malformed id
          (nameIn (grown g.symbols (symbolCount done)) id) how
      else fault.IsFrom g.symbols.length := by
  cases stops with
  | @noAlternatives before _ after rules filled =>
    refine ⟨.malformed id (nameIn (grown g.symbols
      (symbolCount (Rules.tokens before))) id) .noAlternatives, ?_, _, rfl⟩
    rw [rules, rulesObstacle?_append,
      rulesObstacle?_eq_none filled, Option.none_or]
    rfl
  | @token before _ as after ts t us rules filled tokens first fails =>
    have le : g.symbols.length ≤
        (grown g.symbols (symbolCount (Rules.tokens before ++ ts))).length := by
      rw [length_grown]
      exact Nat.le_add_right _ _
    obtain ⟨fault, reported, told⟩ := exists_obstacle?_of_not_filled le id fails
    refine ⟨fault, ?_, ?_⟩
    · have nonempty : as.isEmpty = false := by
        cases as with
        | nil => simp at tokens
        | cons a as => rfl
      have clear := (Token.obstacleAll?_eq_none_iff
        (grown g.symbols (symbolCount (Rules.tokens before))) id ts).mpr first
      rw [rules, rulesObstacle?_append, rulesObstacle?_eq_none filled,
        Option.none_or, rulesObstacle?, ruleObstacle?, nonempty, tokens,
        Token.obstacleAll?_append, clear, Option.none_or, Token.obstacleAll?,
        grown_grown, ← Token.symbolCount_append, reported]
      rfl
    · cases empty : t.isEmptyGroup with
      | true =>
        rw [empty] at told
        simp only [Option.all_some, empty, if_true]
        exact ⟨_, told⟩
      | false =>
        rw [empty] at told
        simpa only [Option.all_some, empty, Bool.false_eq_true, if_false]
          using told

/-- Whether a fault names a rule of the grammar which has no alternatives, or a
group without members at any depth. -/
def NamesCulprit (g : Grammar) (fault : GrammarFault) : Prop :=
  ∃ rule ∈ g.rules, (rule.2 = [] ∨ ∃ a ∈ rule.2, ∃ t ∈ Token.postorderAll a,
    t.isEmptyGroup = true) ∧
    ∃ how, fault = .malformed rule.1 (g.nameOf rule.1) how

/-- The rule at the first obstacle is at fault. -/
theorem StopsAt.exists_rule (stops : g.StopsAt id done place) :
    ∃ rule ∈ g.rules, rule.1 = id ∧
      (rule.2 = [] ∨ ∃ a ∈ rule.2, ∃ t ∈ Token.postorderAll a,
        t.isEmptyGroup = true) := by
  cases stops with
  | @noAlternatives before _ after rules filled =>
    exact ⟨(id, []), by simp [rules], rfl, .inl rfl⟩
  | @token before _ as after ts t us rules filled tokens first fails =>
    refine ⟨(id, as), by simp [rules], rfl, .inr ?_⟩
    have flat : ¬ Token.Filled as.flatten := by
      rw [tokens, Token.filled_iff]
      intro all
      exact fails (all t (by simp))
    rw [filled_flatten] at flat
    simp only [Token.Filled, not_forall, Bool.not_eq_false] at flat
    obtain ⟨a, chosen, u, inside, empty⟩ := flat
    exact ⟨a, chosen, u, inside, empty⟩

/-- A fault for a symbol that is made up names no rule of the grammar: the
grammar has no name for the symbol. -/
theorem not_namesCulprit_of_isFrom {fault : GrammarFault}
    (made : fault.IsFrom g.symbols.length) :
    ¬ g.NamesCulprit fault := by
  obtain ⟨id, name, how, rfl, ge, named⟩ := made
  intro names
  obtain ⟨rule, -, -, how', same⟩ := names
  obtain ⟨rfl, rfl, -⟩ := GrammarFault.malformed.inj same
  exact named (nameIn_of_length_le ge)

/-- A fault for the rule at fault names it exactly if it has the name that the
grammar has for the rule. -/
theorem StopsAt.namesCulprit_iff (stops : g.StopsAt id done place)
    {name : String} {how : Malformation} :
    g.NamesCulprit (.malformed id name how) ↔ name = g.nameOf id := by
  constructor
  · intro names
    obtain ⟨rule, -, -, how', same⟩ := names
    obtain ⟨rfl, named, -⟩ := GrammarFault.malformed.inj same
    exact named
  · intro named
    obtain ⟨rule, mem, rfl, fails⟩ := stops.exists_rule
    exact ⟨rule, mem, fails, how, by rw [named]⟩

/-- **A fault names the culprit exactly if nothing made up comes in between.** A
grammar that cannot be made plain is left as it is, and there is a first
obstacle in its rules: a rule without alternatives, or a token with a group that
has no members. The fault names this rule if the token is itself this group; if
the group is inside, the fault is reported for a symbol that is made up. Neither
is a rule named that stands under the id of a symbol made up before. -/
theorem makePlain_names_culprit_iff {g h : Grammar} {recursion : Recursion}
    {fault : GrammarFault} (failed : makePlain recursion g = .error fault h) :
    h = g ∧ (∃ id done place, g.StopsAt id done place) ∧
      ∀ id done place, g.StopsAt id done place →
        (g.NamesCulprit fault ↔ place.all Token.isEmptyGroup = true ∧
          ¬ (g.symbols.length ≤ id ∧
            id < g.symbols.length + symbolCount done)) := by
  have fails := makePlain_iff recursion g
  simp only [failed] at fails
  refine ⟨fails.2, exists_stopsAt fails.1, ?_⟩
  intro id done place stops
  obtain ⟨fault', found, told⟩ := stops.fault
  have reported : fault' = fault := by
    rw [makePlain, plain_eq, found] at failed
    exact (EStateM.Result.error.inj failed).1
  rw [← reported]
  cases direct : place.all Token.isEmptyGroup with
  | true =>
    rw [direct, if_pos rfl] at told
    obtain ⟨how, same⟩ := told
    rw [same, stops.namesCulprit_iff, nameOf, nameIn_grown_eq_iff]
    exact (and_iff_right rfl).symm
  | false =>
    rw [direct, if_neg Bool.false_ne_true] at told
    exact iff_of_false (not_namesCulprit_of_isFrom told)
      (fun h => Bool.false_ne_true h.1)

end Grammar

/-- `<a> ::= {"x"}* {}+ ;` -/
def groupBehind : Grammar where
  symbols := [⟨"a", false⟩]
  rules := [(0, [[.group .zeroOrMore [.literal "x"], .group .oneOrMore []]])]
  parameters := []
  start := none

/-- The group without members stands in the rule itself, which is named although
a symbol was made up before. -/
theorem groupBehind_names_culprit :
    Grammar.makePlain .right groupBehind
      = .error (.malformed 0 "a" .emptyGroup) groupBehind ∧
    groupBehind.NamesCulprit (.malformed 0 "a" .emptyGroup) := by
  have failed : Grammar.makePlain .right groupBehind
    = .error (.malformed 0 "a" .emptyGroup) groupBehind := rfl
  have stops : groupBehind.StopsAt 0 (Rules.tokens []
      ++ [.group .zeroOrMore [.literal "x"]]) (some (.group .oneOrMore [])) :=
    .token rfl (List.forall_mem_nil _) rfl (by decide) (by decide)
  exact ⟨failed, ((Grammar.makePlain_names_culprit_iff failed).2.2 _ _
    _ stops).mpr ⟨rfl, by decide⟩⟩

/-- A history of the grammar `<a> ::= {{}} ;` -/
def groupInGroup : List Edit :=
  [.intern "a", .setRule 0 [[.group .one [.group .one []]]]]

/-- The fault is reported for the symbol made up for the outer group, which the
grammar does not have. -/
theorem groupInGroup_unnamed : ¬ ∀ edits recursion fault,
    (Grammar.edited edits).plain recursion = .error fault →
    (Grammar.edited edits).NamesCulprit fault := by
  intro named
  have failed : (Grammar.edited groupInGroup).plain .right
      = .error (.malformed 1 "__bnf_1" .emptyGroup) := by
    decide +kernel
  obtain ⟨rule, mem, -, how, same⟩ := named groupInGroup .right _ failed
  have ids : ∀ rule ∈ (Grammar.edited groupInGroup).rules,
    rule.1 = 0 := by decide
  have one : 1 = rule.1 := (GrammarFault.malformed.inj same).1
  rw [ids rule mem] at one
  cases one

end Lexigram
