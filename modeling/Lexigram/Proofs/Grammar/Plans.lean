import Mathlib.Algebra.GroupWithZero.Nat
import Mathlib.Data.List.Forall2
import Lexigram.Proofs.Grammar.PlainSuccess
import Lexigram.Proofs.Grammar.MadeUp

/-!
Plans of plain grammars. What comes of the groups of a grammar can be told
without a run: how many symbols are made up for the tokens of a sequence, which
tokens take their places, which rules the made-up symbols get, and which fault
there is, if any. All of this depends on the tokens and the size of the symbol
table alone, and on the direction of recursion only in that a rule that repeats
refers to itself at one end or the other. A run does what the plan says
(`flattenAll_runs`), and so does `Grammar.plain` (`Grammar.plain_eq`).
-/

namespace Lexigram

namespace Token

/-! ## Symbols -/

/-- Whether a group stands for nothing but its only member: it does not repeat,
and the member is no group. -/
def isWrapper : Token SymbolId → Bool
  | .group m [t] => !m.isRepeat && !t.isGroup
  | _ => false

/-- How many symbols are made up for a token itself, apart from its members:
none but for groups, of which each needs one, unless its only member stands for
it, and another if it repeats and may leave a member out. -/
def ownSymbols : Token SymbolId → Nat
  | .group m members =>
    if isWrapper (.group m members) then 0
    else 1 + if m.isRepeat && members.any isNullable then 1 else 0
  | _ => 0

/-- How many symbols are made up for the tokens of a sequence, at any depth. -/
def symbolCount (ts : List (Token SymbolId)) : Nat :=
  ((postorderAll ts).map ownSymbols).sum

@[simp] theorem symbolCount_nil : symbolCount [] = 0 := rfl

theorem symbolCount_append (ts us : List (Token SymbolId)) :
    symbolCount (ts ++ us) = symbolCount ts + symbolCount us := by
  simp [symbolCount]

theorem symbolCount_cons (t : Token SymbolId) (ts : List (Token SymbolId)) :
    symbolCount (t :: ts) = symbolCount [t] + symbolCount ts :=
  symbolCount_append [t] ts

theorem symbolCount_group (m : Multiplicity) (members : List (Token SymbolId)) :
    symbolCount [.group m members]
      = symbolCount members + ownSymbols (.group m members) := by
  simp [symbolCount, postorder]

theorem symbolCount_leaf {t : Token SymbolId} (leaf : t.isGroup = false) :
    symbolCount [t] = 0 := by
  cases t with
  | literal p => rfl
  | reference target => rfl
  | group m members => cases leaf

/-! ## Tokens -/

/-- The token in place of another, if the next symbol that is made up is `n`. -/
def standIn (n : SymbolId) : Token SymbolId → Token SymbolId
  | .group m [t] => if m.isRepeat || t.isGroup then .reference n else t
  | .group _ _ => .reference n
  | t => t

/-- The tokens in place of those of a sequence, each with whether it may be left
out. -/
def marked (n : SymbolId) : List (Token SymbolId) → List (Token SymbolId × Bool)
  | [] => []
  | t :: ts => (t.standIn n, t.isNullable) :: marked (n + symbolCount [t]) ts

theorem map_snd_marked (n : SymbolId) (ts : List (Token SymbolId)) :
    (marked n ts).map (·.2) = ts.map isNullable := by
  induction ts generalizing n with
  | nil => rfl
  | cons t ts ih => simp [marked, ih]

theorem any_marked (n : SymbolId) (ts : List (Token SymbolId)) :
    (marked n ts).any (·.2) = ts.any isNullable := by
  have h := congrArg (·.any id) (map_snd_marked n ts)
  simpa using h

end Token

open Token (symbolCount marked)

/-- There are two variants for each token that may be left out. -/
theorem length_omissions {α : Type} (us : List (α × Bool)) :
    (omissions us).length = 2 ^ us.countP (·.2) := by
  induction us with
  | nil => rfl
  | cons u us ih =>
    obtain ⟨t, nullable⟩ := u
    cases nullable with
    | false => simp [omissions, ih]
    | true => simp [omissions, ih, Nat.pow_succ]; omega

theorem omissions_of_any_eq_false {α : Type} {us : List (α × Bool)}
    (h : us.any (·.2) = false) :
    omissions us = [us.map (·.1)] := by
  have count : us.countP (·.2) = 0 := by
    rw [List.countP_eq_zero]
    simpa using h
  have length := length_omissions us
  rw [count, omissions_eq_cons] at length
  rw [omissions_eq_cons, List.length_eq_zero_iff.mp (Nat.succ.inj length)]

theorem exists_omissions_of_any {α : Type} {us : List (α × Bool)}
    (h : us.any (·.2) = true) :
    ∃ first second others, omissions us = first :: second :: others := by
  have count : us.countP (·.2) ≠ 0 := by
    intro zero
    rw [List.countP_eq_zero] at zero
    simp only [List.any_eq_true] at h
    obtain ⟨u, mem, nullable⟩ := h
    exact zero u mem nullable
  have length : 2 ≤ (omissions us).length := by
    rw [length_omissions]
    exact Nat.le_self_pow count 2
  match omissions us, length with
  | first :: second :: others, _ => exact ⟨first, second, others, rfl⟩

/-! ## Rules -/

/-- A rule to be made up for a group, but for the end at which it refers to
itself. -/
inductive Plan where
  /-- The members of a group in their variants, as a group has them that does
  not repeat, or as a repetition repeats them. -/
  | once (alternatives : List (Alternative SymbolId))
  /-- The body of a group that repeats, followed by the rule itself or not. -/
  | again (body : Alternative SymbolId)

/-- The alternatives of the rule of `id` that a plan comes to. -/
def Plan.alternatives (recursion : Recursion) (id : SymbolId) :
    Plan → List (Alternative SymbolId)
  | .once alternatives => alternatives
  | .again body => [recursion.extend id body, body]

/-- The rule that a plan comes to. -/
def Plan.rule (recursion : Recursion) (p : SymbolId × Plan) :
    SymbolId × List (Alternative SymbolId) :=
  (p.1, p.2.alternatives recursion p.1)

/-- The plans for the symbol `id` of a group with the given members; `next` is
the symbol that is made up next. -/
def groupPlans (m : Multiplicity) (id next : SymbolId)
    (members : List (Token SymbolId × Bool)) : List (SymbolId × Plan) :=
  if m.isRepeat then
    if members.any (·.2) then [(next, .once (omissions members)),
      (id, .again [.reference next])]
    else [(id, .again (members.map (·.1)))]
  else [(id, .once (omissions members))]

namespace Token

mutual

/-- The plans for the groups in a token, if the next symbol that is made up is
`n`. -/
def plans (n : SymbolId) : Token SymbolId → List (SymbolId × Plan)
  | .group m members =>
    if isWrapper (.group m members) then []
    else plansAll (n + 1) members ++ groupPlans m n
      (n + 1 + symbolCount members) (marked (n + 1) members)
  | .literal _ => []
  | .reference _ => []

/-- The plans for the groups in a sequence. -/
def plansAll (n : SymbolId) : List (Token SymbolId) → List (SymbolId × Plan)
  | [] => []
  | t :: ts => plans n t ++ plansAll (n + symbolCount [t]) ts

end

theorem plansAll_append (n : SymbolId) (ts us : List (Token SymbolId)) :
    plansAll n (ts ++ us) = plansAll n ts
      ++ plansAll (n + symbolCount ts) us := by
  induction ts generalizing n with
  | nil => rfl
  | cons t ts ih =>
    rw [List.cons_append, plansAll, plansAll, ih, symbolCount_cons t ts,
      Nat.add_assoc, List.append_assoc]

theorem of_mem_groupPlans {m : Multiplicity}
    {n next id : Nat} {us : List (Token SymbolId × Bool)} {plan : Plan}
    (mem : (id, plan) ∈ groupPlans m n next us) :
    id = n ∨ id = next ∧ (m.isRepeat && us.any (·.2)) = true := by
  unfold groupPlans at mem
  cases repeats : m.isRepeat with
  | false =>
    rw [repeats] at mem
    exact .inl (congrArg (·.1) (List.mem_singleton.mp mem))
  | true =>
    cases any : us.any (·.2) with
    | false =>
      rw [repeats, any] at mem
      exact .inl (congrArg (·.1) (List.mem_singleton.mp mem))
    | true =>
      rw [repeats, any] at mem
      rcases List.mem_cons.mp mem with mem | mem
      · exact .inr ⟨congrArg (·.1) mem, rfl⟩
      · exact .inl (congrArg (·.1) (List.mem_singleton.mp mem))

mutual

/-- The plans for a token are for symbols that are made up for it. -/
theorem bounds_of_mem_plans (n : Nat) (t : Token SymbolId) {id : Nat}
    {plan : Plan} (mem : (id, plan) ∈ plans n t) :
    n ≤ id ∧ id < n + symbolCount [t] := by
  match t with
  | .literal q => cases mem
  | .reference target => cases mem
  | .group m members =>
    rw [plans] at mem
    cases wrapper : isWrapper (.group m members) with
    | true =>
      rw [wrapper] at mem
      cases mem
    | false =>
      rw [wrapper] at mem
      rw [symbolCount_group, ownSymbols, wrapper]
      simp only [Bool.false_eq_true, if_false]
      rcases List.mem_append.mp mem with mem | mem
      · have h := bounds_of_mem_plansAll (n + 1) members mem
        omega
      · rcases of_mem_groupPlans mem with h | ⟨h, variants⟩
        · omega
        · rw [any_marked] at variants
          rw [variants]
          simp only [if_true]
          omega

/-- The plans for a sequence are for symbols that are made up for it. -/
theorem bounds_of_mem_plansAll (n : Nat) (ts : List (Token SymbolId)) {id : Nat}
    {plan : Plan} (mem : (id, plan) ∈ plansAll n ts) :
    n ≤ id ∧ id < n + symbolCount ts := by
  match ts with
  | [] => cases mem
  | t :: ts =>
    rw [plansAll, List.mem_append] at mem
    rw [symbolCount_cons t ts]
    rcases mem with mem | mem
    · have h := bounds_of_mem_plans n t mem
      omega
    · have h := bounds_of_mem_plansAll (n + symbolCount [t]) ts mem
      omega

end

end Token

/-- The tokens in place of those of the alternatives of a rule. -/
def markedEach (n : SymbolId) :
    List (Alternative SymbolId) → List (List (Token SymbolId × Bool))
  | [] => []
  | a :: as => marked n a :: markedEach (n + symbolCount a) as

/-- The alternatives of a rule with its groups replaced, and the variants behind
them. -/
def plainAlternatives (n : SymbolId) (as : List (Alternative SymbolId)) :
    List (Alternative SymbolId) :=
  (markedEach n as).map (·.map (·.1)) ++ (markedEach n as).flatMap fun us =>
    (omissions us).tail

/-- Rules with their groups replaced. -/
def plainRules (n : SymbolId) : Rules → Rules
  | [] => []
  | (id, as) :: rules =>
    (id, plainAlternatives n as) ::
      plainRules (n + symbolCount as.flatten) rules

/-- The tokens of all rules, in order. -/
def Rules.tokens (rules : Rules) : List (Token SymbolId) :=
  rules.flatMap (·.2.flatten)

theorem Rules.tokens_nil : Rules.tokens [] = [] := rfl

theorem Rules.tokens_cons (rule : SymbolId × List (Alternative SymbolId))
    (rules : Rules) :
    Rules.tokens (rule :: rules) = rule.2.flatten ++ rules.tokens := rfl

/-! ## Faults -/

/-- The symbols when `count` more have been made up. -/
def grown (symbols : List Symbol) : (count : Nat) → List Symbol
  | 0 => symbols
  | count + 1 => grown symbols count ++ [⟨freeName (grown symbols count), true⟩]

@[simp] theorem length_grown (symbols : List Symbol) (count : Nat) :
    (grown symbols count).length = symbols.length + count := by
  induction count with
  | zero => rfl
  | succ count ih => simp [grown, ih]; omega

theorem grown_grown (symbols : List Symbol) (j k : Nat) :
    grown (grown symbols j) k = grown symbols (j + k) := by
  induction k with
  | zero => rfl
  | succ k ih => simp [grown, ih]

namespace Token

mutual

/-- The fault that a group without members in a token of the rule `owner` comes
to. In a group with members the rule is the one made up for this group. -/
def obstacle? (symbols : List Symbol) (owner : SymbolId) :
    Token SymbolId → Option GrammarFault
  | .group _ members =>
    if members.isEmpty then
      some (.malformed owner (nameIn symbols owner) .emptyGroup)
    else obstacleAll? (grown symbols 1) symbols.length members
  | .literal _ => none
  | .reference _ => none

/-- The first fault in a sequence. -/
def obstacleAll? (symbols : List Symbol) (owner : SymbolId) :
    List (Token SymbolId) → Option GrammarFault
  | [] => none
  | t :: ts =>
    (obstacle? symbols owner t).or
      (obstacleAll? (grown symbols (symbolCount [t])) owner ts)

end

end Token

theorem Token.obstacleAll?_append (symbols : List Symbol) (owner : SymbolId)
    (ts us : List (Token SymbolId)) :
    obstacleAll? symbols owner (ts ++ us) =
      (obstacleAll? symbols owner ts).or
      (obstacleAll? (grown symbols (symbolCount ts)) owner us) := by
  induction ts generalizing symbols with
  | nil => rfl
  | cons t ts ih =>
    rw [List.cons_append, obstacleAll?, obstacleAll?, ih, grown_grown,
      ← symbolCount_cons, Option.or_assoc]

/-- The fault that a rule comes to. -/
def ruleObstacle? (symbols : List Symbol) (owner : SymbolId)
    (as : List (Alternative SymbolId)) : Option GrammarFault :=
  if as.isEmpty then
    some (.malformed owner (nameIn symbols owner) .noAlternatives)
  else Token.obstacleAll? symbols owner as.flatten

/-- The first fault in the rules. -/
def rulesObstacle? (symbols : List Symbol) : Rules → Option GrammarFault
  | [] => none
  | (id, as) :: rules =>
    (ruleObstacle? symbols id as).or
      (rulesObstacle? (grown symbols (symbolCount as.flatten)) rules)

/-! ## Runs -/

/-- On the draft `d` the action comes to the fault, if there is one, and else to
the result `a` and the draft `e`. -/
def Drafting.Runs {α : Type} (x : Drafting α) (d : Draft)
    (fault : Option GrammarFault) (a : α) (e : Draft) : Prop :=
  match fault with
  | none => x d = .ok a e
  | some fault => ∃ e, x d = .error fault e

/-- The draft with `count` more symbols, and with rules for some of them. -/
def Draft.planned (recursion : Recursion) (d : Draft) (count : Nat)
    (plans : List (SymbolId × Plan)) : Draft :=
  ⟨grown d.symbols count, d.created ++ plans.map (Plan.rule recursion)⟩

@[simp] theorem Draft.symbols_planned (recursion : Recursion) (d : Draft)
    (count : Nat) (plans : List (SymbolId × Plan)) :
    (d.planned recursion count plans).symbols = grown d.symbols count := rfl

theorem Draft.planned_zero (recursion : Recursion) (d : Draft) :
    d.planned recursion 0 [] = d := by
  simp [planned, grown]

theorem Draft.planned_planned (recursion : Recursion) (d : Draft) (j k : Nat)
    (ps qs : List (SymbolId × Plan)) :
    (d.planned recursion j ps).planned recursion k qs
      = d.planned recursion (j + k) (ps ++ qs) := by
  simp [planned, grown_grown]

namespace Drafting.Runs

variable {α β : Type} {x : Drafting α} {d d' e : Draft}
  {fault fault' : Option GrammarFault} {a : α} {b : β}

theorem pure (d : Draft) (a : α) :
    (Pure.pure a : Drafting α).Runs d none a d := rfl

theorem bind {f : α → Drafting β} (first : x.Runs d fault a d')
    (second : (f a).Runs d' fault' b e) :
    (x >>= f).Runs d (fault.or fault') b e := by
  cases fault with
  | none =>
    have h : (x >>= f) d = f a d' := by
      show EStateM.bind x f d = _
      rw [EStateM.bind, show x d = .ok a d' from first]
    cases fault' with
    | none => exact h.trans second
    | some fault' =>
      obtain ⟨e, second⟩ := second
      exact ⟨e, h.trans second⟩
  | some fault =>
    obtain ⟨e, first⟩ := first
    refine ⟨e, ?_⟩
    show EStateM.bind x f d = _
    rw [EStateM.bind, first]

/-- An action that cannot fail, behind another. -/
theorem bind_none {f : α → Drafting β} (first : x.Runs d fault a d')
    (second : (f a).Runs d' none b e) :
    (x >>= f).Runs d fault b e := by
  have h := first.bind second
  rwa [Option.or_none] at h

/-- An action with a result has no fault, and comes to just this result. -/
theorem of_eq_ok {a' : α} (h : x.Runs d fault a e) (ran : x d = .ok a' d') :
    fault = none ∧ a' = a ∧ d' = e := by
  cases fault with
  | none =>
    rw [show x d = .ok a e from h] at ran
    cases ran
    exact ⟨rfl, rfl, rfl⟩
  | some fault =>
    obtain ⟨e, h⟩ := h
    rw [h] at ran
    cases ran

end Drafting.Runs

section Runs

variable {recursion : Recursion} {owner : SymbolId} {m : Multiplicity}

theorem newSymbol_runs (recursion : Recursion) (d : Draft) :
    Drafting.newSymbol.Runs d none d.symbols.length
      (d.planned recursion 1 []) := by
  show Drafting.newSymbol d = _
  simp [Drafting.newSymbol, Draft.planned, grown]

theorem addRule_runs (recursion : Recursion) (d : Draft) (id : SymbolId)
    (p : Plan) :
    (Drafting.addRule id (p.alternatives recursion id)).Runs d none ()
      (d.planned recursion 0 [(id, p)]) := rfl

theorem repeatedBody_runs (recursion : Recursion) (d : Draft)
    {us : List (Token SymbolId × Bool)} (h : us.any (·.2) = true) :
    (repeatedBody (omissions us)).Runs d none [.reference d.symbols.length]
      (d.planned recursion 1 [(d.symbols.length, .once (omissions us))]) := by
  obtain ⟨first, second, others, several⟩ := exists_omissions_of_any h
  have added := addRule_runs recursion (d.planned recursion 1 [])
    d.symbols.length (.once (omissions us))
  rw [Draft.planned_planned] at added
  rw [several] at added ⊢
  exact (newSymbol_runs recursion d).bind (added.bind (.pure _ _))

theorem completeGroup_runs (recursion : Recursion) (m : Multiplicity)
    (d : Draft) (id : SymbolId) (us : List (Token SymbolId × Bool)) :
    (completeGroup recursion m id (omissions us)).Runs d none
      () (d.planned recursion (if m.isRepeat && us.any (·.2) then 1 else 0)
        (groupPlans m id d.symbols.length us)) := by
  unfold completeGroup groupPlans
  cases m.isRepeat with
  | false => exact addRule_runs recursion d id (.once (omissions us))
  | true =>
    cases any : us.any (·.2) with
    | false =>
      have body : (repeatedBody (omissions us)).Runs d none
          (us.map (·.1)) d := by
        rw [omissions_of_any_eq_false any]
        exact .pure d _
      have added := addRule_runs recursion d id (.again (us.map (·.1)))
      exact body.bind added
    | true =>
      have added := addRule_runs recursion
        (d.planned recursion 1 [(d.symbols.length, .once (omissions us))]) id
        (.again [.reference d.symbols.length])
      rw [Draft.planned_planned] at added
      exact (repeatedBody_runs recursion d any).bind added

theorem isWrapper_group_iff {members : List (Token SymbolId)} :
    Token.isWrapper (.group m members) = true ↔
      ∃ t, members = [t] ∧ m.isRepeat = false ∧ t.isGroup = false := by
  constructor
  · intro h
    match members, h with
    | [t], h => exact ⟨t, rfl, by simpa [Token.isWrapper] using h⟩
  · rintro ⟨t, rfl, repeats, leaf⟩
    simp [Token.isWrapper, repeats, leaf]

theorem obstacleAll?_leaf (symbols : List Symbol) (owner : SymbolId)
    {t : Token SymbolId} (leaf : t.isGroup = false) :
    Token.obstacleAll? symbols owner [t] = none := by
  cases t with
  | literal p => rfl
  | reference target => rfl
  | group m members => cases leaf

theorem inlined?_eq_none {members : List (Token SymbolId)}
    (h : Token.isWrapper (.group m members) = false) :
    inlined? m members = none := by
  cases inlined : inlined? m members with
  | none => rfl
  | some t =>
    rw [isWrapper_group_iff.mpr ⟨t, inlined?_eq_some inlined⟩] at h
    cases h

theorem standIn_of_not_isWrapper (n : SymbolId)
    {members : List (Token SymbolId)}
    (h : Token.isWrapper (.group m members) = false) :
    Token.standIn n (.group m members) = .reference n := by
  match members, h with
  | [], _ => rfl
  | [t], h =>
    have kept : (m.isRepeat || t.isGroup) = true := by
      simp only [Token.isWrapper] at h
      cases again : m.isRepeat <;> simp_all
    simp [Token.standIn, kept]
  | _ :: _ :: _, _ => rfl

mutual

/-- A token is replaced as planned. -/
theorem flattenToken_runs (d : Draft) (owner : SymbolId) (t : Token SymbolId) :
    (flattenToken recursion owner t).Runs d
      (t.obstacle? d.symbols owner) (t.standIn d.symbols.length)
      (d.planned recursion (symbolCount [t]) (t.plans d.symbols.length)) := by
  match t with
  | .literal p =>
    rw [flattenToken, Token.obstacle?, Token.plans,
      Token.symbolCount_leaf rfl, Draft.planned_zero]
    exact .pure d _
  | .reference target =>
    rw [flattenToken, Token.obstacle?, Token.plans,
      Token.symbolCount_leaf rfl, Draft.planned_zero]
    exact .pure d _
  | .group m members =>
    rw [flattenToken, Token.obstacle?, Token.plans]
    cases empty : members.isEmpty with
    | true => exact ⟨d, rfl⟩
    | false =>
      cases wrapper : Token.isWrapper (.group m members) with
      | true =>
        obtain ⟨t, rfl, repeats, leaf⟩ := isWrapper_group_iff.mp wrapper
        have inlined : inlined? m [t] = some t := by
          simp [inlined?, repeats, leaf]
        have stands : Token.standIn d.symbols.length (.group m [t]) = t := by
          simp [Token.standIn, repeats, leaf]
        rw [inlined, stands, Token.symbolCount_group,
          Token.symbolCount_leaf leaf, Token.ownSymbols, wrapper]
        simp only [obstacleAll?_leaf _ _ leaf, Bool.false_eq_true, if_false,
          if_true, Nat.add_zero, Draft.planned_zero]
        exact .pure d t
      | false =>
        have inside :=
          flattenAll_runs (d.planned recursion 1 []) d.symbols.length members
        have completed := completeGroup_runs recursion m
          ((d.planned recursion 1 []).planned recursion (symbolCount members)
            (Token.plansAll (d.symbols.length + 1) members))
          d.symbols.length (marked (d.symbols.length + 1) members)
        simp only [Draft.planned_planned, Draft.symbols_planned, length_grown,
          Token.any_marked, List.nil_append] at inside completed
        have count : symbolCount [.group m members] =
            1 + symbolCount members + if m.isRepeat
            && members.any Token.isNullable then 1 else 0 := by
          rw [Token.symbolCount_group, Token.ownSymbols, wrapper]
          simp only [Bool.false_eq_true, if_false]
          omega
        rw [inlined?_eq_none wrapper, standIn_of_not_isWrapper _ wrapper, count]
        simp only [Bool.false_eq_true, if_false, Nat.add_assoc] at completed ⊢
        exact (newSymbol_runs recursion d).bind
          (inside.bind_none (completed.bind_none (.pure _ _)))

/-- The tokens of a sequence are replaced as planned. -/
theorem flattenAll_runs (d : Draft) (owner : SymbolId)
    (ts : List (Token SymbolId)) :
    (flattenAll recursion owner ts).Runs d
      (Token.obstacleAll? d.symbols owner ts) (marked d.symbols.length ts)
      (d.planned recursion (symbolCount ts)
        (Token.plansAll d.symbols.length ts)) := by
  match ts with
  | [] =>
    rw [flattenAll, Token.obstacleAll?, Token.plansAll,
      Token.symbolCount_nil, Draft.planned_zero]
    exact .pure d _
  | t :: ts =>
    have rest := flattenAll_runs (d.planned recursion (symbolCount [t])
      (t.plans d.symbols.length)) owner ts
    rw [Draft.planned_planned, Draft.symbols_planned, length_grown] at rest
    rw [flattenAll, Token.obstacleAll?, Token.plansAll,
      Token.symbolCount_cons t ts, Token.marked]
    exact (flattenToken_runs d owner t).bind (rest.bind_none (.pure _ _))

end

/-- The alternatives of a rule are replaced as planned, one after the other. -/
theorem mapM_flattenAll_runs (d : Draft) (owner : SymbolId)
    (as : List (Alternative SymbolId)) :
    (as.mapM (flattenAll recursion owner)).Runs d
      (Token.obstacleAll? d.symbols owner as.flatten)
      (markedEach d.symbols.length as)
      (d.planned recursion (symbolCount as.flatten)
        (Token.plansAll d.symbols.length as.flatten)) := by
  induction as generalizing d with
  | nil =>
    rw [List.flatten_nil, Token.obstacleAll?, Token.plansAll,
      Token.symbolCount_nil, Draft.planned_zero]
    exact .pure d _
  | cons a as ih =>
    have rest := ih (d.planned recursion (symbolCount a)
      (Token.plansAll d.symbols.length a))
    rw [Draft.planned_planned, Draft.symbols_planned, length_grown] at rest
    rw [List.flatten_cons, Token.obstacleAll?_append, Token.plansAll_append,
      Token.symbolCount_append, List.mapM_cons, markedEach]
    exact (flattenAll_runs d owner a).bind (rest.bind_none (.pure _ _))

/-- A rule is replaced as planned. -/
theorem flattenRule_runs (recursion : Recursion) (d : Draft) (owner : SymbolId)
    (as : List (Alternative SymbolId)) :
    (flattenRule recursion owner as).Runs d (ruleObstacle? d.symbols owner as)
      (plainAlternatives d.symbols.length as)
      (d.planned recursion (symbolCount as.flatten)
        (Token.plansAll d.symbols.length as.flatten)) := by
  unfold flattenRule ruleObstacle?
  cases empty : as.isEmpty with
  | true => exact ⟨d, rfl⟩
  | false => exact (mapM_flattenAll_runs d owner as).bind_none (.pure _ _)

/-- All rules are replaced as planned. -/
theorem flattenRules_runs (recursion : Recursion) (d : Draft) (rules : Rules) :
    (flattenRules recursion rules).Runs d (rulesObstacle? d.symbols rules)
      (plainRules d.symbols.length rules)
      (d.planned recursion (symbolCount rules.tokens)
        (Token.plansAll d.symbols.length rules.tokens)) := by
  induction rules generalizing d with
  | nil =>
    rw [rulesObstacle?, Rules.tokens_nil, Token.plansAll,
      Token.symbolCount_nil, Draft.planned_zero]
    exact .pure d _
  | cons rule rules ih =>
    obtain ⟨id, as⟩ := rule
    have rest := ih (d.planned recursion (symbolCount as.flatten)
      (Token.plansAll d.symbols.length as.flatten))
    rw [Draft.planned_planned, Draft.symbols_planned, length_grown] at rest
    rw [rulesObstacle?, Rules.tokens_cons, Token.plansAll_append,
      Token.symbolCount_append, flattenRules, List.mapM_cons, plainRules]
    have first : (do let flat ← flattenRule recursion id as; return (id, flat) :
        Drafting _).Runs d (ruleObstacle? d.symbols id as)
        (id, plainAlternatives d.symbols.length as) _ :=
      (flattenRule_runs recursion d id as).bind_none (.pure _ _)
    exact first.bind (rest.bind_none (.pure _ _))

end Runs

/-! ## Plain grammars -/

/-- The plain grammar, if there is one. Only the rules that repeat depend on the
direction. -/
def Grammar.planned (g : Grammar) (recursion : Recursion) : Grammar :=
  { g with
    symbols := grown g.symbols (symbolCount g.rules.tokens)
    rules := (plainRules g.symbols.length g.rules).insertAll
      ((Token.plansAll g.symbols.length g.rules.tokens).map
        (Plan.rule recursion)) }

/-- What making a grammar plain comes to. -/
theorem Grammar.plain_eq (g : Grammar) (recursion : Recursion) :
    g.plain recursion = match rulesObstacle? g.symbols g.rules with
      | some fault => .error fault
      | none => .ok (g.planned recursion) := by
  have runs := flattenRules_runs recursion ⟨g.symbols, []⟩ g.rules
  unfold plain flatten
  cases obstacle : rulesObstacle? g.symbols g.rules with
  | none =>
    rw [obstacle] at runs
    rw [show flattenRules recursion g.rules ⟨g.symbols, []⟩ = _ from runs]
    rfl
  | some fault =>
    rw [obstacle] at runs
    obtain ⟨e, runs⟩ := runs
    rw [runs]

theorem Grammar.planned_of_plain {g h : Grammar} {recursion : Recursion}
    (plain : g.plain recursion = .ok h) :
    h = g.planned recursion := by
  rw [plain_eq] at plain
  split at plain
  · cases plain
  · exact (Except.ok.inj plain).symm

/-- The rules that are put in are those of symbols that are made up. -/
theorem bounds_of_mem_keys {recursion : Recursion}
    {n id : Nat} {ts : List (Token SymbolId)}
    (mem : id ∈ Table.keys ((Token.plansAll n ts).map (Plan.rule recursion))) :
    n ≤ id ∧ id < n + symbolCount ts := by
  rw [Table.keys, List.map_map] at mem
  obtain ⟨⟨_, plan⟩, planned, rfl⟩ := List.mem_map.mp mem
  exact Token.bounds_of_mem_plansAll n ts planned

end Lexigram
