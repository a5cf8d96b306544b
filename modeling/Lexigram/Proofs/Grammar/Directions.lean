import Lexigram.Proofs.Grammar.Derivation
import Lexigram.Proofs.Grammar.Leaves
import Lexigram.Proofs.Grammar.Plans

/-!
The two directions of recursion. Whether a rule that repeats refers to itself in
front or behind is all that the direction decides: a grammar is made plain to
the left exactly if it is made plain to the right, with the same symbols and the
same rules, but for the first alternatives of the rules made up for groups that
repeat (`Grammar.plain_left_right`).
-/

namespace Lexigram

open Token (symbolCount marked)

/-! ## Tables -/

/-- Tables stay related entry by entry when entries are put in that are. -/
theorem Table.forall₂_insert {α β : Type}
    {R : SymbolId × α → SymbolId × β → Prop} (keys : ∀ x y, R x y → x.1 = y.1)
    {t : Table SymbolId α} {u : Table SymbolId β} (tables : List.Forall₂ R t u)
    {id : SymbolId} {a : α} {b : β} (entry : R (id, a) (id, b)) :
    List.Forall₂ R (t.insert id a) (u.insert id b) := by
  induction tables with
  | nil => exact .cons entry .nil
  | @cons x y t u here rest ih =>
    obtain ⟨key, a'⟩ := x
    obtain ⟨key', b'⟩ := y
    obtain rfl : key = key' := keys _ _ here
    rw [Table.insert, Table.insert]
    split
    · exact .cons entry rest
    · split
      · exact .cons entry (.cons here rest)
      · exact .cons here ih

theorem Table.forall₂_insertAll {α β : Type}
    {R : SymbolId × α → SymbolId × β → Prop} (keys : ∀ x y, R x y → x.1 = y.1)
    {t : Table SymbolId α} {u : Table SymbolId β} (tables : List.Forall₂ R t u)
    {xs : List (SymbolId × α)} {ys : List (SymbolId × β)}
    (entries : List.Forall₂ R xs ys) :
    List.Forall₂ R (t.insertAll xs) (u.insertAll ys) := by
  induction entries generalizing t u with
  | nil => exact tables
  | @cons x y xs ys here _ ih =>
    obtain ⟨id, a⟩ := x
    obtain ⟨id', b⟩ := y
    obtain rfl : id = id' := keys _ _ here
    exact ih (Table.forall₂_insert keys tables here)

/-! ## Groups that repeat -/

namespace Token

mutual

/-- The symbols made up for the groups in a token that repeat, if the next
symbol that is made up is `n`. -/
def repetitions (n : SymbolId) : Token SymbolId → List SymbolId
  | .group m members =>
    if isWrapper (.group m members) then []
    else (if m.isRepeat then [n] else []) ++ repetitionsAll (n + 1) members
  | .literal _ => []
  | .reference _ => []

/-- The symbols made up for the groups in a sequence that repeat. -/
def repetitionsAll (n : SymbolId) : List (Token SymbolId) → List SymbolId
  | [] => []
  | t :: ts => repetitions n t ++ repetitionsAll (n + symbolCount [t]) ts

end

mutual

theorem bounds_of_mem_repetitions (n : Nat) (t : Token SymbolId) {id : Nat}
    (mem : id ∈ repetitions n t) :
    n ≤ id ∧ id < n + symbolCount [t] := by
  match t with
  | .literal q => cases mem
  | .reference target => cases mem
  | .group m members =>
    rw [repetitions] at mem
    cases wrapper : isWrapper (.group m members) with
    | true =>
      rw [wrapper] at mem
      cases mem
    | false =>
      rw [wrapper] at mem
      rw [symbolCount_group, ownSymbols, wrapper]
      simp only [Bool.false_eq_true, if_false]
      rcases List.mem_append.mp mem with mem | mem
      · cases repeats : m.isRepeat with
        | true =>
          rw [repeats] at mem
          have h : id = n := List.mem_singleton.mp mem
          omega
        | false =>
          rw [repeats] at mem
          cases mem
      · have h := bounds_of_mem_repetitionsAll (n + 1) members mem
        omega

theorem bounds_of_mem_repetitionsAll (n : Nat) (ts : List (Token SymbolId))
    {id : Nat} (mem : id ∈ repetitionsAll n ts) :
    n ≤ id ∧ id < n + symbolCount ts := by
  match ts with
  | [] => cases mem
  | t :: ts =>
    rw [repetitionsAll, List.mem_append] at mem
    rw [symbolCount_cons t ts]
    rcases mem with mem | mem
    · have h := bounds_of_mem_repetitions n t mem
      omega
    · have h := bounds_of_mem_repetitionsAll (n + symbolCount [t]) ts mem
      omega

end

/-! ## What a repetition repeats -/

theorem targets_standIn {n target : Nat} {t : Token SymbolId}
    (mem : target ∈ targets [t.standIn n]) :
    target ∈ targets [t] ∨ target = n := by
  match t, mem with
  | .literal p, mem => exact .inl mem
  | .reference r, mem => exact .inl mem
  | .group m [], mem => exact .inr (by simpa [standIn] using mem)
  | .group m (_ :: _ :: _), mem => exact .inr (by simpa [standIn] using mem)
  | .group m [t], mem =>
    rw [standIn] at mem
    split at mem
    · exact .inr (by simpa using mem)
    · exact .inl (by simpa using mem)

/-- What stands for a sequence refers to what the sequence refers to, and to
symbols that are made up. -/
theorem targets_marked {n target : Nat} {ts : List (Token SymbolId)}
    (mem : target ∈ targets ((marked n ts).map (·.1))) :
    target ∈ targets ts ∨ n ≤ target := by
  induction ts generalizing n with
  | nil => cases mem
  | cons t ts ih =>
    rw [marked, List.map_cons, targets_cons, List.mem_append] at mem
    rw [targets_cons, List.mem_append]
    rcases mem with mem | mem
    · rcases targets_standIn mem with h | h
      · exact .inl (.inl h)
      · exact .inr (by omega)
    · rcases ih mem with h | h
      · exact .inl (.inr h)
      · exact .inr (by omega)

end Token

/-- Whether a plan for `id` repeats exactly if `id` is among the given symbols,
and then repeats what refers to targets of `ts` and to symbols behind `id`
only. -/
def Plan.Fits (ids : List SymbolId) (ts : List (Token SymbolId)) (id : Nat) :
    Plan → Prop
  | .once _ => id ∉ ids
  | .again body =>
    id ∈ ids ∧ ∀ target : Nat, target ∈ Token.targets body →
      target ∈ Token.targets ts ∨ id < target

theorem Plan.Fits.widen {ids ids' : List SymbolId}
    {ts ts' : List (Token SymbolId)} {id : Nat}
    {plan : Plan} (h : plan.Fits ids ts id) (same : id ∈ ids' ↔ id ∈ ids)
    (wider : ∀ target, target ∈ Token.targets ts → target ∈ Token.targets ts') :
    plan.Fits ids' ts' id := by
  cases plan with
  | once alternatives => exact fun mem => h (same.mp mem)
  | again body =>
    refine ⟨same.mpr h.1, ?_⟩
    intro target mem
    exact (h.2 target mem).imp_left (wider target)

namespace Token

theorem fits_groupPlans {m : Multiplicity} {n next id : Nat}
    {members : List (Token SymbolId)} {plan : Plan} (later : n < next)
    (mem : (id, plan) ∈ groupPlans m n next (marked (n + 1) members)) :
    plan.Fits (if m.isRepeat then [n] else []) members id := by
  unfold groupPlans at mem
  cases repeats : m.isRepeat with
  | false =>
    rw [repeats] at mem
    obtain ⟨rfl, rfl⟩ := Prod.mk.inj (List.mem_singleton.mp mem)
    exact List.not_mem_nil
  | true =>
    simp only [repeats, if_true] at mem
    split at mem
    · rcases List.mem_cons.mp mem with mem | mem
      · -- the symbol of the members is made up behind the one of the group
        obtain ⟨rfl, rfl⟩ := Prod.mk.inj mem
        intro h
        have same : id = n := List.mem_singleton.mp h
        omega
      · obtain ⟨rfl, rfl⟩ := Prod.mk.inj (List.mem_singleton.mp mem)
        refine ⟨List.mem_singleton_self _, ?_⟩
        intro target h
        have same : target = next := by simpa using h
        exact .inr (by omega)
    · obtain ⟨rfl, rfl⟩ := Prod.mk.inj (List.mem_singleton.mp mem)
      refine ⟨List.mem_singleton_self _, ?_⟩
      intro target h
      exact targets_marked h

mutual

/-- The plans for a token repeat for the groups that do, and only for these. -/
theorem fits_plans (n : Nat) (t : Token SymbolId) {id : Nat} {plan : Plan}
    (mem : (id, plan) ∈ plans n t) :
    plan.Fits (repetitions n t) [t] id := by
  match t with
  | .literal q => cases mem
  | .reference target => cases mem
  | .group m members =>
    rw [plans] at mem
    rw [repetitions]
    cases wrapper : isWrapper (.group m members) with
    | true =>
      rw [wrapper] at mem
      cases mem
    | false =>
      rw [wrapper] at mem
      simp only [Bool.false_eq_true, if_false] at mem ⊢
      have wider : ∀ target, target ∈ targets members →
          target ∈ targets [.group m members] := by
        intro target h
        simpa using h
      rcases List.mem_append.mp mem with mem | mem
      · have bounds := bounds_of_mem_plansAll (n + 1) members mem
        have other : id ∉ if m.isRepeat then [n] else [] := by
          cases m.isRepeat with
          | false => exact List.not_mem_nil
          | true =>
            intro h
            have same : id = n := List.mem_singleton.mp h
            omega
        exact (fits_plansAll (n + 1) members mem).widen (by simp [other]) wider
      · have other : id ∉ repetitionsAll (n + 1) members := by
          intro h
          have bounds := bounds_of_mem_repetitionsAll (n + 1) members h
          rcases of_mem_groupPlans mem with same | ⟨same, -⟩ <;> omega
        exact (fits_groupPlans (by omega) mem).widen (by simp [other]) wider

/-- The plans for a sequence repeat for the groups that do, and only for
these. -/
theorem fits_plansAll (n : Nat) (ts : List (Token SymbolId)) {id : Nat}
    {plan : Plan} (mem : (id, plan) ∈ plansAll n ts) :
    plan.Fits (repetitionsAll n ts) ts id := by
  match ts with
  | [] => cases mem
  | t :: ts =>
    rw [plansAll, List.mem_append] at mem
    rw [repetitionsAll]
    rcases mem with mem | mem
    · have bounds := bounds_of_mem_plans n t mem
      have other : id ∉ repetitionsAll (n + symbolCount [t]) ts := by
        intro h
        have later := bounds_of_mem_repetitionsAll (n + symbolCount [t]) ts h
        omega
      refine (fits_plans n t mem).widen (by simp [other]) ?_
      intro target h
      rw [targets_cons]
      exact List.mem_append_left _ h
    · have bounds := bounds_of_mem_plansAll (n + symbolCount [t]) ts mem
      have other : id ∉ repetitions n t := by
        intro h
        have earlier := bounds_of_mem_repetitions n t h
        omega
      refine (fits_plansAll (n + symbolCount [t]) ts mem).widen
        (by simp [other]) ?_
      intro target h
      rw [targets_cons]
      exact List.mem_append_right _ h

end

end Token

/-! ## Plain grammars -/

theorem keys_plainRules (n : SymbolId) (rules : Rules) :
    Table.keys (plainRules n rules) = Table.keys rules := by
  induction rules generalizing n with
  | nil => rfl
  | cons rule rules ih =>
    obtain ⟨id, as⟩ := rule
    have rest := ih (n + symbolCount as.flatten)
    simp only [Table.keys] at rest
    simp [plainRules, Table.keys, rest]

/-- A well-scoped grammar refers to symbols in its table only. -/
theorem lt_of_mem_tokens {g : Grammar} (known : g.WellScoped) {target : Nat}
    (mem : target ∈ Token.targets g.rules.tokens) :
    target < g.symbols.length := by
  simp only [Token.targets, Token.postorderAll_eq_flatMap, List.mem_filterMap,
    List.mem_flatMap, Rules.tokens, List.mem_flatten] at mem
  obtain ⟨u, ⟨t, ⟨rule, stands, a, chosen, within⟩, inside⟩, refers⟩ := mem
  refine (known rule stands).2 a chosen target ?_
  simp only [Token.targets, Token.postorderAll_eq_flatMap,
    List.mem_filterMap, List.mem_flatMap]
  exact ⟨u, ⟨t, within, inside⟩, refers⟩

/-- Whether two rules of `id` differ in their first alternatives only, and there
only in that the left one begins with the reference to the rule itself, and the
right one ends with it. -/
def Turned (id : SymbolId) (left right : List (Alternative SymbolId)) : Prop :=
  ∃ body others, left = (.reference id :: body) :: others ∧
    right = (body ++ [.reference id]) :: others ∧
    id ∉ Token.targets body

namespace Grammar

/-- The symbols made up for the groups of a grammar that repeat. -/
def repetitions (g : Grammar) : List SymbolId :=
  Token.repetitionsAll g.symbols.length g.rules.tokens

/-- Whether the entries are for the same symbol, with the same rule, but for a
turn if the symbol is made up for a group that repeats. -/
def SameButTurned (g : Grammar) (x y : SymbolId × List (Alternative SymbolId)) :
    Prop :=
  x.1 = y.1 ∧ if x.1 ∈ g.repetitions then Turned x.1 x.2 y.2 else x.2 = y.2

theorem mem_repetitions_ge {g : Grammar} {id : Nat} (mem : id ∈ g.repetitions) :
    g.symbols.length ≤ id :=
  (Token.bounds_of_mem_repetitionsAll _ _ mem).1

/-- The rules of the grammar itself do not depend on the direction. -/
theorem sameButTurned_of_mem {g : Grammar}
    (known : g.WellScoped) {x : SymbolId × List (Alternative SymbolId)}
    (mem : x ∈ plainRules g.symbols.length g.rules) : g.SameButTurned x x := by
  have key : x.1 ∈ Table.keys (plainRules g.symbols.length g.rules) :=
    List.mem_map_of_mem mem
  rw [keys_plainRules] at key
  obtain ⟨rule, stands, same⟩ := List.mem_map.mp key
  have lt : rule.1 < g.symbols.length := (known rule stands).1
  have other : x.1 ∉ g.repetitions := by
    intro h
    have ge := mem_repetitions_ge h
    rw [← same] at ge
    exact Nat.not_lt_of_le ge lt
  refine ⟨rfl, ?_⟩
  rw [if_neg other]

/-- The rules made up for groups are turned, if their groups repeat. -/
theorem sameButTurned_rule {g : Grammar}
    (known : g.WellScoped) {id : Nat} {plan : Plan}
    (mem : (id, plan) ∈ Token.plansAll g.symbols.length g.rules.tokens) :
    g.SameButTurned (Plan.rule .left (id, plan))
      (Plan.rule .right (id, plan)) := by
  have fits := Token.fits_plansAll g.symbols.length g.rules.tokens mem
  have ge :=
    (Token.bounds_of_mem_plansAll g.symbols.length g.rules.tokens mem).1
  refine ⟨rfl, ?_⟩
  cases plan with
  | once alternatives =>
    have other : id ∉ g.repetitions := fits
    exact (if_neg other).mpr rfl
  | again body =>
    have repeats : id ∈ g.repetitions := fits.1
    refine (if_pos repeats).mpr ⟨body, [body], rfl, rfl, ?_⟩
    intro self
    rcases fits.2 id self with h | h
    · exact Nat.not_lt_of_le ge (lt_of_mem_tokens known h)
    · exact Nat.lt_irrefl id h

theorem forall₂_planned {g : Grammar} (known : g.WellScoped) :
    List.Forall₂ g.SameButTurned (g.planned .left).rules
      (g.planned .right).rules := by
  refine Table.forall₂_insertAll (fun x y h => h.1) ?_ ?_
  · rw [List.forall₂_same]
    intro x mem
    exact sameButTurned_of_mem known mem
  · rw [List.forall₂_map_left_iff,
      List.forall₂_map_right_iff, List.forall₂_same]
    intro p mem
    exact sameButTurned_rule known mem

/-- **The direction of recursion only turns the rules that repeat.** If rules
and references of a grammar stay within its table, making it plain comes to the
same fault in both directions, or to the same symbols and, entry by entry, the
same rules; the rules made up for groups that repeat are turned, and what they
repeat does not refer to them. -/
theorem plain_left_right {g : Grammar} (known : g.WellScoped) :
    match g.plain .left, g.plain .right with
    | .error fault, .error fault' => fault = fault'
    | .ok l, .ok r =>
      l.symbols = r.symbols ∧ l.parameters = r.parameters ∧ l.start = r.start ∧
        List.Forall₂ g.SameButTurned l.rules r.rules
    | _, _ => False := by
  rw [plain_eq, plain_eq]
  cases rulesObstacle? g.symbols g.rules with
  | some fault => rfl
  | none => exact ⟨rfl, rfl, rfl, forall₂_planned known⟩

end Grammar

/-- `<r> ::= {"a" {<r>}? }+ "b" | {"c"}* ;` -/
def repeatedTwice : Grammar where
  symbols := [⟨"r", false⟩]
  rules :=
    [(0, [[.group .oneOrMore [.literal "a", .group .optional [.reference 0]],
      .literal "b"], [.group .zeroOrMore [.literal "c"]]])]
  parameters := []
  start := some 0

/-- Of the three made-up rules those for the groups that repeat are turned. -/
theorem repeatedTwice_left_right :
    repeatedTwice.WellScoped ∧ repeatedTwice.repetitions = [1, 3] ∧ ∃ l r,
      repeatedTwice.plain .left = .ok l ∧ repeatedTwice.plain .right = .ok r ∧
      l.rule? 1 = some [[.reference 1, .reference 2], [.reference 2]] ∧
      r.rule? 1 = some [[.reference 2, .reference 1], [.reference 2]] ∧
      List.Forall₂ repeatedTwice.SameButTurned l.rules r.rules := by
  have known : repeatedTwice.WellScoped := by decide
  exact ⟨known, by decide, _, _, rfl, rfl, rfl, rfl,
    (Grammar.plain_left_right known).2.2.2⟩

end Lexigram
