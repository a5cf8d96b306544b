import Mathlib.Data.Finset.Powerset
import Mathlib.Data.Finset.Range
import Lexigram.Proofs.Grammar.Drafts
import Lexigram.Proofs.Grammar.Plans

/-!
# Variants

What is in a rule whose groups have been replaced. Its own alternatives come
first, each token in its place. Behind them, in the same order, come their
variants: one for each selection of groups that may be left out, told by their
positions, so that no selection is passed over and none comes twice
(`Grammar.plain_lists_variants`).
-/

namespace Lexigram

/-! ## Selections -/

section Selections

variable {α : Type} {n : Nat} {s : Finset Nat} {us : List (α × Bool)}

/-- A sequence without what stands at the given positions, counted from `n`. -/
def withoutFrom (n : Nat) (s : Finset Nat) (xs : List α) : List α :=
  ((xs.zipIdx n).filter fun p => p.2 ∉ s).map (·.1)

/-- A sequence without what stands at the given positions. -/
def without (s : Finset Nat) (xs : List α) : List α :=
  withoutFrom 0 s xs

/-- The sets of positions that may be left out, counted from `n`, in the order
of the variants. -/
def selections : (n : Nat) → List (α × Bool) → List (Finset Nat)
  | _, [] => [∅]
  | n, (_, nullable) :: us =>
    selections (n + 1) us
      ++ if nullable then (selections (n + 1) us).map (insert n) else []

theorem mem_selections_cons {t : α} {nullable : Bool} :
    s ∈ selections n ((t, nullable) :: us) ↔
      s ∈ selections (n + 1) us ∨ nullable = true ∧
      ∃ s' ∈ selections (n + 1) us, insert n s' = s := by
  cases nullable <;> simp [selections]

/-- What may be left out is what is marked. -/
theorem mem_selections : s ∈ selections n us ↔ ∀ i ∈ s, ∃ j,
    i = n + j ∧ us[j]?.any (·.2) = true := by
  induction us generalizing n s with
  | nil =>
    simp only [selections, List.mem_singleton,
      List.getElem?_nil, Option.any_none]
    constructor
    · intro h i inside
      rw [h] at inside
      cases inside
    · intro h
      apply Finset.eq_empty_of_forall_notMem
      intro i inside
      obtain ⟨_, -, marked⟩ := h i inside
      cases marked
  | cons u us ih =>
    obtain ⟨t, nullable⟩ := u
    -- positions behind the first are those of the rest, one further
    have later {i : Nat}
      (inside : ∃ j, i = n + 1 + j ∧ us[j]?.any (·.2) = true) :
        ∃ j, i = n + j ∧ ((t, nullable) :: us)[j]?.any (·.2) = true := by
      obtain ⟨j, place, marked⟩ := inside
      exact ⟨j + 1, by omega, by simpa using marked⟩
    have rest {i : Nat} (ne : i ≠ n)
        (inside : ∃ j, i = n + j ∧ ((t, nullable) :: us)[j]?.any (·.2) = true) :
        ∃ j, i = n + 1 + j ∧ us[j]?.any (·.2) = true := by
      obtain ⟨j, place, marked⟩ := inside
      cases j with
      | zero => exact absurd place ne
      | succ j => exact ⟨j, by omega, by simpa using marked⟩
    rw [mem_selections_cons]
    constructor
    · intro h i inside
      rcases h with h | ⟨omittable, s', h, same⟩
      · exact later (ih.mp h i inside)
      · rw [← same, Finset.mem_insert] at inside
        rcases inside with inside | inside
        · exact ⟨0, inside, by simpa using omittable⟩
        · exact later (ih.mp h i inside)
    · intro h
      by_cases has : n ∈ s
      · right
        obtain ⟨j, place, marked⟩ := h n has
        obtain rfl : j = 0 := by omega
        refine ⟨by simpa using marked, s.erase n, ih.mpr ?_,
          Finset.insert_erase has⟩
        intro i inside
        exact rest (Finset.ne_of_mem_erase inside)
          (h i (Finset.mem_of_mem_erase inside))
      · left
        apply ih.mpr
        intro i inside
        exact rest (fun same => has (same ▸ inside)) (h i inside)

theorem le_of_mem_selections (h : s ∈ selections n us) {i : Nat} (mem : i ∈ s) :
    n ≤ i := by
  obtain ⟨j, rfl, -⟩ := mem_selections.mp h i mem
  exact Nat.le_add_right n j

theorem not_mem_of_mem_selections (h : s ∈ selections (n + 1) us) : n ∉ s :=
  fun mem => Nat.not_succ_le_self n (le_of_mem_selections h mem)

theorem nodup_selections (n : Nat) (us : List (α × Bool)) :
    (selections n us).Nodup := by
  induction us generalizing n with
  | nil => exact List.nodup_singleton _
  | cons u us ih =>
    obtain ⟨t, nullable⟩ := u
    cases nullable with
    | false => simpa [selections] using ih (n + 1)
    | true =>
      simp only [selections, if_true]
      refine (ih (n + 1)).append ((ih (n + 1)).map_on ?_) ?_
      · intro s mem s' mem' same
        rw [← Finset.erase_insert (not_mem_of_mem_selections mem), same,
          Finset.erase_insert (not_mem_of_mem_selections mem')]
      · intro s mem added
        obtain ⟨s', -, rfl⟩ := List.mem_map.mp added
        exact not_mem_of_mem_selections mem (Finset.mem_insert_self n s')

/-- The first selection leaves nothing out. -/
theorem selections_eq_cons (n : Nat) (us : List (α × Bool)) :
    selections n us = ∅ :: (selections n us).tail := by
  induction us generalizing n with
  | nil => rfl
  | cons u us ih =>
    obtain ⟨t, nullable⟩ := u
    rw [selections, ih (n + 1)]
    rfl

theorem withoutFrom_cons_of_mem {x : α} {xs : List α} (h : n ∈ s) :
    withoutFrom n s (x :: xs) = withoutFrom (n + 1) s xs := by
  simp [withoutFrom, List.zipIdx_cons, h]

theorem withoutFrom_cons_of_not_mem {x : α} {xs : List α} (h : n ∉ s) :
    withoutFrom n s (x :: xs) = x :: withoutFrom (n + 1) s xs := by
  simp [withoutFrom, List.zipIdx_cons, h]

/-- A position in front of a sequence says nothing about what is left of it. -/
theorem withoutFrom_insert (n : Nat) (s : Finset Nat) (xs : List α) :
    withoutFrom (n + 1) (insert n s) xs = withoutFrom (n + 1) s xs := by
  unfold withoutFrom
  congr 1
  apply List.filter_congr
  intro p mem
  have le : n + 1 ≤ p.2 := List.le_snd_of_mem_zipIdx mem
  have ne : p.2 ≠ n := by omega
  simp [ne]

/-- The variants of a sequence are what is left of it by the selections. -/
theorem omissions_eq_selections (n : Nat) (us : List (α × Bool)) :
    omissions us = (selections n us).map fun s =>
      withoutFrom n s (us.map (·.1)) := by
  induction us generalizing n with
  | nil => rfl
  | cons u us ih =>
    obtain ⟨t, nullable⟩ := u
    have kept : (omissions us).map (t :: ·) =
        (selections (n + 1) us).map fun s =>
          withoutFrom n s (t :: us.map (·.1)) := by
      rw [ih (n + 1), List.map_map]
      apply List.map_congr_left
      intro s mem
      exact (withoutFrom_cons_of_not_mem (not_mem_of_mem_selections mem)).symm
    have dropped : omissions us =
        ((selections (n + 1) us).map (insert n)).map fun s =>
          withoutFrom n s (t :: us.map (·.1)) := by
      rw [ih (n + 1), List.map_map]
      apply List.map_congr_left
      intro s _
      show _ = withoutFrom n (insert n s) _
      rw [withoutFrom_cons_of_mem (Finset.mem_insert_self n s),
        withoutFrom_insert]
    cases nullable with
    | false => simpa [omissions, selections] using kept
    | true =>
      simp only [omissions, selections, if_true, List.map_append, List.map_cons]
      rw [← kept, ← dropped]

/-! ## Removals -/

/-- The positions of what may be left out. -/
def places : List (α × Bool) → List Nat
  | [] => []
  | (_, nullable) :: us =>
    (if nullable then [0] else []) ++ (places us).map (· + 1)

/-- A sequence and what comes of it when, from the last of the given positions
to the first, what stands there is removed from a copy of everything there is so
far. -/
def removals (ps : List Nat) (xs : List α) : List (List α) :=
  ps.foldr (fun p copies => copies ++ copies.map (·.eraseIdx p)) [xs]

theorem removals_map_succ (ps : List Nat) (x : α) (xs : List α) :
    removals (ps.map (· + 1)) (x :: xs) = (removals ps xs).map (x :: ·) := by
  induction ps with
  | nil => rfl
  | cons p ps ih =>
    have removed : (removals (ps.map (· + 1)) (x :: xs)).map
        (·.eraseIdx (p + 1)) =
        ((removals ps xs).map (·.eraseIdx p)).map (x :: ·) := by
      rw [ih, List.map_map, List.map_map]
      rfl
    show removals (ps.map (· + 1)) (x :: xs)
      ++ (removals (ps.map (· + 1)) (x :: xs)).map (·.eraseIdx (p + 1)) =
      (removals ps xs ++ (removals ps xs).map (·.eraseIdx p)).map (x :: ·)
    rw [removed, ih, List.map_append]

/-- The variants of a sequence are there when everything that may be left out
has been removed, position by position, from all copies made so far: removing
from the back leaves the positions in front as they are. -/
theorem omissions_eq_removals (us : List (α × Bool)) :
    omissions us = removals (places us) (us.map (·.1)) := by
  induction us with
  | nil => rfl
  | cons u us ih =>
    obtain ⟨x, nullable⟩ := u
    have kept := removals_map_succ (places us) x (us.map (·.1))
    cases nullable with
    | false =>
      show (omissions us).map (x :: ·) ++ []
        = removals ((places us).map (· + 1)) (x :: us.map (·.1))
      rw [List.append_nil, kept, ih]
    | true =>
      have first : ((omissions us).map (x :: ·)).map (·.eraseIdx 0)
          = omissions us := by
        rw [List.map_map]
        exact List.map_id _
      show (omissions us).map (x :: ·) ++ omissions us =
        removals ((places us).map (· + 1)) (x :: us.map (·.1)) ++
          (removals ((places us).map (· + 1)) (x :: us.map (·.1))).map
            (·.eraseIdx 0)
      rw [kept, ← ih, first]

end Selections

/-- Whether a list has every non-empty subset of a set, each of them once. -/
structure ListsSelections (subsets : List (Finset Nat)) (whole : Finset Nat) :
    Prop where
  once : subsets.Nodup
  all : ∀ s, s ∈ subsets ↔ s.Nonempty ∧ s ⊆ whole

/-! ## Alternatives -/

namespace Token

/-- A sequence with its groups replaced in place, if the next symbol that is
made up is `n`. -/
def replaced (n : SymbolId) : List (Token SymbolId) → List (Token SymbolId)
  | [] => []
  | t :: ts => t.standIn n :: replaced (n + symbolCount [t]) ts

/-- The positions in a sequence of the groups that may be left out. -/
def nullablePositions (ts : List (Token SymbolId)) : Finset Nat :=
  (Finset.range ts.length).filter fun i => ts[i]?.any isNullable

theorem map_fst_marked (n : SymbolId) (ts : List (Token SymbolId)) :
    (marked n ts).map (·.1) = replaced n ts := by
  induction ts generalizing n with
  | nil => rfl
  | cons t ts ih => simp [marked, replaced, ih]

theorem any_getElem?_marked (n : SymbolId) (ts : List (Token SymbolId))
    (i : Nat) :
    (marked n ts)[i]?.any (·.2) = ts[i]?.any isNullable := by
  have h := congrArg (fun bs => bs[i]?.any id) (map_snd_marked n ts)
  simpa [List.getElem?_map, Option.any_map] using h

theorem countP_marked (n : SymbolId) (ts : List (Token SymbolId)) :
    (marked n ts).countP (·.2) = ts.countP isNullable := by
  have h := congrArg (fun bs => bs.countP id) (map_snd_marked n ts)
  simpa [List.countP_map, Function.comp_def] using h

theorem subset_nullablePositions {n : SymbolId} {ts : List (Token SymbolId)}
    {s : Finset Nat} :
    s ∈ selections 0 (marked n ts) ↔ s ⊆ nullablePositions ts := by
  rw [mem_selections]
  constructor
  · intro h i inside
    obtain ⟨j, same, marks⟩ := h i inside
    obtain rfl : i = j := by omega
    rw [any_getElem?_marked] at marks
    have lt : i < ts.length := by
      by_contra ge
      rw [List.getElem?_eq_none (Nat.le_of_not_lt ge)] at marks
      cases marks
    simp only [nullablePositions, Finset.mem_filter, Finset.mem_range]
    exact ⟨lt, marks⟩
  · intro h i inside
    have mem := h inside
    simp only [nullablePositions, Finset.mem_filter, Finset.mem_range] at mem
    refine ⟨i, by omega, ?_⟩
    rw [any_getElem?_marked]
    exact mem.2

/-- The variants of a sequence but for the first: one for each selection of
groups that may be left out. -/
theorem exists_listsSelections (n : SymbolId) (ts : List (Token SymbolId)) :
    ∃ subsets, ListsSelections subsets (nullablePositions ts) ∧
      subsets.length + 1 = 2 ^ ts.countP isNullable ∧
      (omissions (marked n ts)).tail = subsets.map fun s =>
        without s (replaced n ts) := by
  have all := selections_eq_cons 0 (marked n ts)
  have once := nodup_selections 0 (marked n ts)
  rw [all, List.nodup_cons] at once
  refine ⟨(selections 0 (marked n ts)).tail, ⟨once.2, fun s => ?_⟩, ?_, ?_⟩
  · rw [← subset_nullablePositions, all, List.mem_cons, List.tail_cons]
    constructor
    · intro mem
      refine ⟨?_, .inr mem⟩
      rw [Finset.nonempty_iff_ne_empty]
      intro empty
      exact once.1 (empty ▸ mem)
    · intro mem
      exact mem.2.resolve_left mem.1.ne_empty
  · rw [← countP_marked n, ← length_omissions, omissions_eq_selections 0,
      List.length_map, all]
    rfl
  · rw [omissions_eq_selections 0, ← List.map_tail, map_fst_marked]
    rfl

end Token

open Token (marked replaced nullablePositions symbolCount)

/-! ## Rules -/

/-- The alternatives of a rule with their groups replaced in place, if the next
symbol that is made up is `n`. -/
def replacedEach (n : SymbolId) :
    List (Alternative SymbolId) → List (Alternative SymbolId)
  | [] => []
  | a :: as => replaced n a :: replacedEach (n + symbolCount a) as

/-- Whether `flat` is what becomes of the alternatives of a rule, if the next
symbol that is made up is `n`. The alternatives come first, with their groups
replaced in place. Behind them, alternative by alternative, there is one more
for each non-empty set of positions of groups that may be left out, which lacks
just these: with `k` such groups, an alternative stands for `2 ^ k`. -/
def ListsVariants (n : SymbolId) (as flat : List (Alternative SymbolId)) :
    Prop :=
  ∃ subsets : List (List (Finset Nat)),
    flat = replacedEach n as ++
      (List.zipWith (fun a ss => ss.map fun s => without s a)
        (replacedEach n as) subsets).flatten ∧
    List.Forall₂ (fun a ss => ListsSelections ss (nullablePositions a) ∧
      ss.length + 1 = 2 ^ a.countP Token.isNullable) as subsets

theorem map_fst_markedEach (n : SymbolId) (as : List (Alternative SymbolId)) :
    (markedEach n as).map (·.map (·.1)) = replacedEach n as := by
  induction as generalizing n with
  | nil => rfl
  | cons a as ih =>
    rw [markedEach, replacedEach, List.map_cons, Token.map_fst_marked, ih]

theorem exists_subsets (n : SymbolId) (as : List (Alternative SymbolId)) :
    ∃ subsets : List (List (Finset Nat)),
      (markedEach n as).flatMap (fun us => (omissions us).tail) =
        (List.zipWith (fun a ss => ss.map fun s => without s a)
          (replacedEach n as) subsets).flatten ∧
      List.Forall₂ (fun a ss => ListsSelections ss (nullablePositions a) ∧
        ss.length + 1 = 2 ^ a.countP Token.isNullable) as subsets := by
  induction as generalizing n with
  | nil => exact ⟨[], rfl, .nil⟩
  | cons a as ih =>
    obtain ⟨subsets, rest, all⟩ := ih (n + symbolCount a)
    obtain ⟨ss, lists, length, variants⟩ := Token.exists_listsSelections n a
    refine ⟨ss :: subsets, ?_, .cons ⟨lists, length⟩ all⟩
    rw [markedEach, replacedEach, List.flatMap_cons, List.zipWith_cons_cons,
      List.flatten_cons, variants, rest]

theorem listsVariants_plainAlternatives (n : SymbolId)
    (as : List (Alternative SymbolId)) :
    ListsVariants n as (plainAlternatives n as) := by
  obtain ⟨subsets, variants, all⟩ := exists_subsets n as
  refine ⟨subsets, ?_, all⟩
  rw [plainAlternatives, map_fst_markedEach, variants]

/-- The members of a group in their variants are what becomes of a rule with
them as its only alternative. -/
theorem listsVariants_omissions (n : SymbolId) (ts : List (Token SymbolId)) :
    ListsVariants n [ts] (omissions (marked n ts)) := by
  have h := listsVariants_plainAlternatives n [ts]
  have same : plainAlternatives n [ts] = omissions (marked n ts) := by
    rw [omissions_eq_cons, plainAlternatives]
    simp [markedEach]
  rwa [same] at h

theorem plainRules_append (n : SymbolId) (rules others : Rules) :
    plainRules n (rules ++ others) = plainRules n rules
      ++ plainRules (n + symbolCount rules.tokens) others := by
  induction rules generalizing n with
  | nil => rfl
  | cons rule rules ih =>
    obtain ⟨id, as⟩ := rule
    rw [List.cons_append, plainRules, plainRules, ih, Rules.tokens_cons,
      Token.symbolCount_append, Nat.add_assoc, List.cons_append]

namespace Grammar

/-- **A rule is replaced by exactly its variants.** Whatever is in the draft,
replacing the groups of a rule gives its alternatives and their variants, and
makes up as many symbols as its groups need, at any depth; so does replacing
those among the members of a group. In a grammar that is made plain the symbols
are those made up for all its rules, and each rule is there with its variants,
unless it is under the id of a symbol that was made up. -/
theorem plain_lists_variants :
    (∀ recursion owner as d flat e,
      flattenRule recursion owner as d = .ok flat e →
      ListsVariants d.symbols.length as flat ∧
      e.symbols.length = d.symbols.length + symbolCount as.flatten) ∧
    (∀ recursion owner members d us e,
      flattenAll recursion owner members d = .ok us e →
      ListsVariants d.symbols.length [members] (omissions us) ∧
        e.symbols.length = d.symbols.length + symbolCount members) ∧
    ∀ (g h : Grammar) recursion, g.plain recursion = .ok h →
      h.symbols.length = g.symbols.length + symbolCount g.rules.tokens ∧
      ∀ before id as after, g.rules = before ++ (id, as) :: after →
        ¬ (g.symbols.length ≤ id ∧ id < h.symbols.length) →
        ∃ flat, (id, flat) ∈ h.rules ∧
          ListsVariants (g.symbols.length + symbolCount (Rules.tokens before))
          as flat := by
  refine ⟨?_, ?_, ?_⟩
  · intro recursion owner as d flat e ran
    obtain ⟨-, lists, draft⟩ :=
      (flattenRule_runs recursion d owner as).of_eq_ok ran
    rw [lists, draft, Draft.symbols_planned, length_grown]
    exact ⟨listsVariants_plainAlternatives _ _, rfl⟩
  · intro recursion owner members d us e ran
    obtain ⟨-, marks, draft⟩ := (flattenAll_runs d owner members).of_eq_ok ran
    rw [marks, draft, Draft.symbols_planned, length_grown]
    exact ⟨listsVariants_omissions _ _, rfl⟩
  · intro g h recursion plain
    obtain rfl := planned_of_plain plain
    have length : (g.planned recursion).symbols.length
        = g.symbols.length + symbolCount g.rules.tokens :=
      length_grown _ _
    refine ⟨length, ?_⟩
    intro before id as after rules other
    refine ⟨_, Table.mem_insertAll_of_not_mem ?_ ?_,
      listsVariants_plainAlternatives _ as⟩
    · rw [rules, plainRules_append, plainRules]
      exact List.mem_append_right _ List.mem_cons_self
    · intro key
      apply other
      rw [length]
      exact bounds_of_mem_keys key

end Grammar

/-- `<r> ::= {"x"}? {{"y"}? "z"}* | "w" ;` -/
def optionalsInside : Grammar where
  symbols := [⟨"r", false⟩]
  rules := [(0, [[.group .optional [.literal "x"], .group .zeroOrMore
    [.group .optional [.literal "y"], .literal "z"]], [.literal "w"]])]
  parameters := []
  start := none

/-- Each of the two groups of the first alternative may be left out, and both.
The one that repeats has a symbol, and another for its members, as one of them
may be left out. -/
theorem optionalsInside_lists_variants :
    (∃ e, flattenRule .right 0 (optionalsInside.rules.flatMap (·.2))
        ⟨optionalsInside.symbols, []⟩ = .ok [[.literal "x", .reference 1],
          [.literal "w"], [.literal "x"], [.reference 1], []] e ∧
      ListsVariants 1 (optionalsInside.rules.flatMap (·.2)) [[.literal "x",
        .reference 1], [.literal "w"], [.literal "x"], [.reference 1], []]) ∧
    ∃ h, optionalsInside.plain .right = .ok h ∧
    h.symbols.length = optionalsInside.symbols.length + 2 := by
  constructor
  · refine ⟨_, rfl, ?_⟩
    exact (Grammar.plain_lists_variants.1 .right 0
      (optionalsInside.rules.flatMap (·.2)) ⟨optionalsInside.symbols, []⟩ _
      _ rfl).1
  · exact ⟨_, rfl,
      (Grammar.plain_lists_variants.2.2 optionalsInside _ .right rfl).1⟩

end Lexigram
