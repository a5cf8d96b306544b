import Lexigram.Grammar.Fault
import Lexigram.Proofs.Table

/-!
First faults. The tokens of a rule are visited by alternative, in each by place,
and the members of a group before the group itself (`VisitedBefore`). A grammar
is checked by visiting the tokens of its rules in the order of their ids. It has
no fault exactly if all its rules are sound, and else the fault is the first one
of the first rule that is not (`Grammar.fault?_finds_first`).
-/

namespace Lexigram

/-! ## Searching in order -/

theorem findSome?_flatMap {α β γ : Type} (f : β → Option γ) (g : α → List β)
    (xs : List α) :
    (xs.flatMap g).findSome? f = xs.findSome? fun x => (g x).findSome? f := by
  rw [← List.head?_filterMap, List.filterMap_flatMap, List.head?_flatMap]
  simp only [List.head?_filterMap]

/-- In a list in order something is found where no element before gives
anything. -/
theorem findSome?_eq_some_iff_of_pairwise {α β : Type} {before : α → α → Prop}
    {f : α → Option β} {xs : List α} {y : β} (order : xs.Pairwise before)
    (asymm : ∀ a b, before a b → ¬ before b a) :
    xs.findSome? f = some y ↔ ∃ x ∈ xs, f x = some y ∧ ∀ w ∈ xs, before w x →
      f w = none := by
  rw [List.findSome?_eq_some_iff]
  constructor
  · rintro ⟨front, x, behind, rfl, found, none⟩
    refine ⟨x, by simp, found, fun w mem earlier => ?_⟩
    have later : ∀ v ∈ behind, before x v := by
      have := (List.pairwise_append.mp order).2.1
      exact (List.pairwise_cons.mp this).1
    rcases List.mem_append.mp mem with mem | mem
    · exact none w mem
    · rcases List.mem_cons.mp mem with rfl | mem
      · exact absurd earlier (asymm w w earlier)
      · exact absurd earlier (asymm x w (later w mem))
  · rintro ⟨x, mem, found, first⟩
    obtain ⟨front, behind, rfl⟩ := List.append_of_mem mem
    have earlier := (List.pairwise_append.mp order).2.2
    exact ⟨front, x, behind, rfl, found,
      fun w mem => first w (by simp [mem]) (earlier w mem x List.mem_cons_self)⟩

/-! ## Places -/

/-- Where a token stands: the number of its alternative, the number of a token
in it, and so on into its members. -/
abbrev Path := List Nat

/-- The order in which tokens are visited: by number, and what stands inside
before what is around it. -/
def VisitedBefore : Path → Path → Prop
  | [], _ => False
  | _ :: _, [] => True
  | i :: p, j :: q => i < j ∨ i = j ∧ VisitedBefore p q

theorem VisitedBefore.asymm {p q : Path} (h : VisitedBefore p q) :
    ¬ VisitedBefore q p := by
  induction p generalizing q with
  | nil => exact h.elim
  | cons i p ih =>
    cases q with
    | nil => exact id
    | cons j q =>
      rintro (lt | ⟨same, behind⟩)
      · rcases h with lt' | ⟨same, -⟩ <;> omega
      · exact h.elim (fun lt => by omega) fun h => ih h.2 behind

section Numbered

variable {α β : Type}

/-- What elements have at their places, each behind its number. -/
def numbered (f : α → List (Path × β)) (xs : List α) (first : Nat) :
    List (Path × β) :=
  (xs.zipIdx first).flatMap fun (x, i) => (f x).map (Prod.map (i :: ·) id)

variable {f : α → List (Path × β)} {xs : List α}

theorem map_snd_numbered (first : Nat) :
    (numbered f xs first).map Prod.snd = xs.flatMap fun x =>
      (f x).map Prod.snd := by
  induction xs generalizing first with
  | nil => rfl
  | cons x xs ih =>
    have rest := ih (first + 1)
    rw [numbered] at rest
    simp [numbered, rest]

theorem mem_numbered {path : Path} {y : β} :
    (path, y) ∈ numbered f xs 0 ↔ ∃ i rest x,
      path = i :: rest ∧ xs[i]? = some x ∧ (rest, y) ∈ f x := by
  simp only [numbered, List.mem_flatMap, List.mem_map, Prod.exists, Prod.map,
    Prod.mk.injEq, id, List.mk_mem_zipIdx_iff_getElem?]
  constructor
  · rintro ⟨x, i, here, rest, z, mem, rfl, rfl⟩
    exact ⟨i, rest, x, rfl, here, mem⟩
  · rintro ⟨i, rest, x, rfl, here, mem⟩
    exact ⟨x, i, here, rest, y, mem, rfl, rfl⟩

/-- Numbers keep what is in order in order. -/
theorem pairwise_numbered
    (h : ∀ x ∈ xs, (f x).Pairwise fun v w => VisitedBefore v.1 w.1)
    (first : Nat) :
    (numbered f xs first).Pairwise fun v w => VisitedBefore v.1 w.1 := by
  refine List.pairwise_flatMap.mpr ⟨?_, ?_⟩
  · rintro ⟨x, i⟩ mem
    have own := h x (List.fst_mem_of_mem_zipIdx mem)
    exact List.pairwise_map.mpr (own.imp fun before => .inr ⟨rfl, before⟩)
  · have numbers : ((xs.zipIdx first).map Prod.snd).Pairwise (· < ·) := by
      rw [List.zipIdx_map_snd]
      exact List.pairwise_lt_range'
    refine (List.pairwise_map.mp numbers).imp ?_
    rintro ⟨x, i⟩ ⟨y, j⟩ lt v mem w mem'
    obtain ⟨⟨p, u⟩, -, rfl⟩ := List.mem_map.mp mem
    obtain ⟨⟨q, u'⟩, -, rfl⟩ := List.mem_map.mp mem'
    exact .inl lt

end Numbered

namespace Token

variable {ι : Type}

/-- The token at a place inside another one. -/
def inside? : Path → Token ι → Option (Token ι)
  | [], t => some t
  | i :: path, t => t.members[i]?.bind (inside? path)

mutual

/-- A token and all tokens inside it with their places, as they are visited. -/
def visits : Token ι → List (Path × Token ι)
  | .group m ts => visitsFrom 0 ts ++ [([], .group m ts)]
  | t => [([], t)]

/-- The tokens of a sequence and all tokens inside them, numbered from `first`
on. -/
def visitsFrom (first : Nat) : List (Token ι) → List (Path × Token ι)
  | [] => []
  | t :: ts =>
    (visits t).map (Prod.map (first :: ·) id) ++ visitsFrom (first + 1) ts

end

theorem visitsFrom_eq (first : Nat) (ts : List (Token ι)) :
    visitsFrom first ts = numbered visits ts first := by
  induction ts generalizing first with
  | nil => rfl
  | cons t ts ih => simp [visitsFrom, numbered, ih]

theorem visits_eq (t : Token ι) :
    t.visits = numbered visits t.members 0 ++ [([], t)] := by
  cases t with
  | literal p => rfl
  | reference t => rfl
  | group m ts => rw [visits, visitsFrom_eq]; rfl

theorem postorder_eq (t : Token ι) :
    t.postorder = t.members.flatMap postorder ++ [t] := by
  cases t with
  | literal p => rfl
  | reference t => rfl
  | group m ts => rw [postorder, postorderAll_eq_flatMap]; rfl

/-- Induction along the members of groups. -/
theorem members_induction {motive : Token ι → Prop}
    (step : ∀ t, (∀ u ∈ t.members, motive u) → motive t) :
    ∀ t, motive t
  | .literal p => step _ (List.forall_mem_nil _)
  | .reference t => step _ (List.forall_mem_nil _)
  | .group m ts => step _ fun u (_ : u ∈ ts) => members_induction step u

theorem map_snd_visits (t : Token ι) : t.visits.map Prod.snd = t.postorder := by
  induction t using members_induction with
  | step t ih =>
    rw [visits_eq, postorder_eq, List.map_append, map_snd_numbered]
    exact congrArg (· ++ [t]) (List.flatMap_congr ih)

theorem mem_visits {t u : Token ι} {path : Path} :
    (path, u) ∈ t.visits ↔ inside? path t = some u := by
  induction t using members_induction generalizing path with
  | step t ih =>
    rw [visits_eq, List.mem_append, mem_numbered]
    cases path with
    | nil => simp [inside?, eq_comm]
    | cons i path =>
      simp only [inside?, Option.bind_eq_some_iff, List.mem_singleton,
        Prod.mk.injEq, reduceCtorEq, false_and, or_false, List.cons.injEq]
      constructor
      · rintro ⟨i, path, v, ⟨rfl, rfl⟩, here, mem⟩
        exact ⟨v, here, (ih v (List.mem_of_getElem? here)).mp mem⟩
      · rintro ⟨v, here, inside⟩
        exact ⟨i, path, v, ⟨rfl, rfl⟩, here,
          (ih v (List.mem_of_getElem? here)).mpr inside⟩

theorem pairwise_visits (t : Token ι) :
    t.visits.Pairwise fun v w => VisitedBefore v.1 w.1 := by
  induction t using members_induction with
  | step t ih =>
    rw [visits_eq, List.pairwise_append]
    refine ⟨pairwise_numbered ih 0, List.pairwise_singleton _ _, ?_⟩
    -- the token itself is visited last
    rintro ⟨path, u⟩ mem w here
    obtain rfl := List.mem_singleton.mp here
    obtain ⟨i, rest, -, rfl, -⟩ := mem_numbered.mp mem
    exact trivial

end Token

/-! ## The tokens of a rule -/

section Rules

variable {ι : Type} {as : List (Alternative ι)}

/-- The token at a place of a rule. -/
def tokenAt? (as : List (Alternative ι)) : Path → Option (Token ι)
  | i :: j :: path => as[i]?.bind fun a => a[j]?.bind (Token.inside? path)
  | _ => none

/-- All tokens of a rule with their places, as they are visited. -/
def ruleVisits (as : List (Alternative ι)) : List (Path × Token ι) :=
  numbered (fun a => numbered Token.visits a 0) as 0

theorem map_snd_ruleVisits :
    (ruleVisits as).map Prod.snd = as.flatMap Token.postorderAll := by
  rw [ruleVisits, map_snd_numbered]
  refine List.flatMap_congr fun a _ => ?_
  rw [map_snd_numbered, Token.postorderAll_eq_flatMap]
  exact List.flatMap_congr fun t _ => t.map_snd_visits

theorem mem_ruleVisits {path : Path} {t : Token ι} :
    (path, t) ∈ ruleVisits as ↔ tokenAt? as path = some t := by
  simp only [ruleVisits, mem_numbered, Token.mem_visits]
  constructor
  · rintro ⟨i, _, a, rfl, alternative, j, path, u, rfl, here, inside⟩
    simp [tokenAt?, alternative, here, inside]
  · intro stands
    match path with
    | i :: j :: path =>
      obtain ⟨a, alternative, stands⟩ := Option.bind_eq_some_iff.mp stands
      obtain ⟨u, here, inside⟩ := Option.bind_eq_some_iff.mp stands
      exact ⟨i, _, a, rfl, alternative, j, path, u, rfl, here, inside⟩

theorem pairwise_ruleVisits (as : List (Alternative ι)) :
    (ruleVisits as).Pairwise fun v w => VisitedBefore v.1 w.1 :=
  pairwise_numbered (fun _ _ => pairwise_numbered
    (fun t _ => t.pairwise_visits) 0) 0

end Rules

namespace Grammar

variable {g : Grammar} {id : SymbolId} {as : List (Alternative SymbolId)}
  {fault : GrammarFault}

/-! ## Faults of a rule -/

/-- What is wrong with a token of the rule of `id` taken by itself. -/
inductive Faulty (g : Grammar) (id : SymbolId) :
    Token SymbolId → GrammarFault → Prop
  | emptyGroup (m : Multiplicity) :
      Faulty g id (.group m []) (.malformed id (g.nameOf id) .emptyGroup)
  | dangling {target : SymbolId} (missing : g.rule? target = none) :
      Faulty g id (.reference target)
        (.dangling id (g.nameOf id) target (g.nameOf target))

/-- Whether a rule has alternatives, no group in it at any depth is without
members, and every reference in it is to a symbol with a rule. -/
structure Sound (g : Grammar) (as : List (Alternative SymbolId)) : Prop where
  nonempty : as ≠ []
  filled : ∀ path m, tokenAt? as path ≠ some (.group m [])
  defined : ∀ path target, tokenAt? as path = some (.reference target) → ∃ bs,
    g.rule? target = some bs

/-- The first fault of a rule: that it has no alternatives, or else that of the
first token with one. -/
inductive FirstFault (g : Grammar) (id : SymbolId) :
    List (Alternative SymbolId) → GrammarFault → Prop
  | noAlternatives :
      FirstFault g id [] (.malformed id (g.nameOf id) .noAlternatives)
  | token {as : List (Alternative SymbolId)} {path : Path} {t : Token SymbolId}
      {fault : GrammarFault} (stands : tokenAt? as path = some t)
      (faulty : g.Faulty id t fault) (first : ∀ path' u other, VisitedBefore
        path' path → tokenAt? as path' = some u → ¬ g.Faulty id u other) :
      FirstFault g id as fault

theorem tokenFault?_eq_some_iff {t : Token SymbolId} :
    g.tokenFault? id t = some fault ↔ g.Faulty id t fault := by
  constructor
  · intro found
    unfold tokenFault? at found
    split at found
    · cases found
    · split at found
      · cases found
      · next missing =>
        obtain rfl := Option.some.inj found
        exact .dangling missing
    · obtain rfl := Option.some.inj found
      exact .emptyGroup _
    · cases found
  · rintro (m | missing)
    · rfl
    · simp [tokenFault?, missing]

theorem tokenFault?_eq_none_iff_not_faulty {t : Token SymbolId} :
    g.tokenFault? id t = none ↔ ∀ fault, ¬ g.Faulty id t fault := by
  simp only [Option.eq_none_iff_forall_ne_some, ne_eq, tokenFault?_eq_some_iff]

/-- The check of a rule goes through its tokens as they are visited. -/
theorem ruleFault?_eq (nonempty : as ≠ []) :
    g.ruleFault? id as = (ruleVisits as).findSome? fun visit =>
      g.tokenFault? id visit.2 := by
  have alternatives : as.isEmpty = false := by simpa using nonempty
  calc
    g.ruleFault? id as = (as.flatMap Token.postorderAll).findSome?
        (g.tokenFault? id) := by
      rw [ruleFault?, alternatives, findSome?_flatMap]
      rfl
    _ = ((ruleVisits as).map Prod.snd).findSome? (g.tokenFault? id) := by
      rw [map_snd_ruleVisits]
    _ = (ruleVisits as).findSome? fun visit => g.tokenFault? id visit.2 :=
      List.findSome?_map

theorem ruleFault?_eq_none_iff_sound :
    g.ruleFault? id as = none ↔ g.Sound as := by
  by_cases none : as = []
  · subst none
    exact iff_of_false nofun fun sound => sound.nonempty rfl
  rw [ruleFault?_eq none, List.findSome?_eq_none_iff]
  simp only [Prod.forall, mem_ruleVisits, tokenFault?_eq_none_iff_not_faulty]
  constructor
  · intro h
    refine ⟨none, fun path m stands => h path _ stands _ (.emptyGroup m),
      fun path target stands => ?_⟩
    by_contra missing
    exact h path _ stands _ (.dangling
      (Option.eq_none_iff_forall_ne_some.mpr (not_exists.mp missing)))
  · rintro sound path t stands fault (m | missing)
    · exact sound.filled path m stands
    · obtain ⟨bs, there⟩ := sound.defined path _ stands
      rw [missing] at there
      cases there

theorem ruleFault?_eq_some_iff :
    g.ruleFault? id as = some fault ↔ g.FirstFault id as fault := by
  by_cases none : as = []
  · subst none
    constructor
    · intro found
      obtain rfl := Option.some.inj found
      exact .noAlternatives
    · intro first
      cases first with
      | noAlternatives => rfl
      | token stands => cases mem_ruleVisits.mpr stands
  rw [ruleFault?_eq none, findSome?_eq_some_iff_of_pairwise
    (pairwise_ruleVisits as) fun _ _ => VisitedBefore.asymm]
  simp only [Prod.exists, Prod.forall, mem_ruleVisits,
    tokenFault?_eq_some_iff, tokenFault?_eq_none_iff_not_faulty]
  constructor
  · rintro ⟨path, t, stands, faulty, first⟩
    exact .token stands faulty fun path' u other before stands' =>
      first path' u stands' before other
  · rintro (_ | @⟨_, path, t, _, stands, faulty, first⟩)
    · exact absurd rfl none
    · exact ⟨path, t, stands, faulty,
        fun path' u stands' before other => first path' u other before stands'⟩

/-! ## Faults of a grammar -/

/-- **The check finds the first fault.** A grammar has no fault exactly if all
its rules are sound. Else the fault is that of the rule with the least id that
is not sound, and of this rule the first one. Rules are kept in the order of
their ids by all operations on grammars. -/
theorem fault?_finds_first (ordered : g.rules.Ordered) :
    (g.fault? = none ↔ ∀ id as, g.rule? id = some as → g.Sound as) ∧
      ∀ fault, g.fault? = some fault ↔
      ∃ id as, g.rule? id = some as ∧ g.FirstFault id as fault ∧
        ∀ id' < id, ∀ bs, g.rule? id' = some bs → g.Sound bs := by
  have stands {id : SymbolId} {as : List (Alternative SymbolId)} :
      (id, as) ∈ g.rules ↔ g.rule? id = some as :=
    Table.mem_iff_find? ordered
  have byId : g.rules.Pairwise fun rule other => rule.1 < other.1 :=
    List.pairwise_map.mp ordered
  constructor
  · simp only [fault?, List.findSome?_eq_none_iff, Prod.forall,
      stands, ruleFault?_eq_none_iff_sound]
  · intro fault
    rw [fault?, findSome?_eq_some_iff_of_pairwise byId fun _ _ => Nat.lt_asymm]
    simp only [Prod.exists, Prod.forall, stands,
      ruleFault?_eq_some_iff, ruleFault?_eq_none_iff_sound]
    constructor
    · rintro ⟨id, as, here, found, first⟩
      exact ⟨id, as, here, found, fun id' lt bs there => first id' bs there lt⟩
    · rintro ⟨id, as, here, found, first⟩
      exact ⟨id, as, here, found, fun id' bs there lt => first id' lt bs there⟩

end Grammar

/-- `<a> ::= "x" ; <b> ::= <a> | "y" {"z" {<d>} {}+}? {}* | <d> ;` with a rule
for `<c>` that has no alternatives. -/
def severalFaults : Grammar where
  symbols := [⟨"a", false⟩, ⟨"b", false⟩, ⟨"c", false⟩, ⟨"d", false⟩]
  rules := [
    (0, [[.literal "x"]]),
    (1, [[.reference 0],
      [.literal "y", .group .optional [.literal "z", .group .one [.reference 3],
        .group .oneOrMore []], .group .zeroOrMore []],
      [.reference 3]]),
    (2, [])]
  parameters := []
  start := none

/-- The reference inside the inner group comes before all other faults. -/
theorem severalFaults_first :
    severalFaults.rules.Ordered ∧ severalFaults.fault?
      = some (.dangling 1 "b" 3 "d") ∧
      (¬ ∀ id as, severalFaults.rule? id = some as → severalFaults.Sound as) ∧
        ∃ id as, severalFaults.rule? id = some as ∧
          severalFaults.FirstFault id as (.dangling 1 "b" 3 "d") ∧ ∀ id' < id,
          ∀ bs, severalFaults.rule? id' = some bs → severalFaults.Sound bs := by
  have ordered : severalFaults.rules.Ordered :=
    (by decide : [0, 1, 2].Pairwise (· < ·))
  have found : severalFaults.fault? = some (.dangling 1 "b" 3 "d") := by decide
  obtain ⟨sound, first⟩ := Grammar.fault?_finds_first ordered
  refine ⟨ordered, found, fun all => ?_, (first _).mp found⟩
  rw [sound.mpr all] at found
  cases found

end Lexigram
