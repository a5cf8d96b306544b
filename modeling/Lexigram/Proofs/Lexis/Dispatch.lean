import Lexigram.Proofs.Lexis.Assembly
import Lexigram.Proofs.Table

/-!
What a lexicon matches. Its master pattern is a choice of its alternatives, each
by itself a pattern: the fragments of its token rules, the pattern of white
space and, with a fallback, that of errors. So a match starts where one of them
first matches, and is what the first of those matches there (`Lexicon.Chosen`).
Which alternative that was is read off the groups, whose numbers are added up
from what the fragments record: that is right as long as no group in front is
repeated no times at all (`Lexicon.CountsBefore`), for such a group is numbered
but not counted.
-/

namespace Lexigram

open Pattern (Compiled Match Progress Expr IsPattern Enclosable Winner
  outerNumber numberParts)

section

variable {g : Grammar} {options : LexiconOptions} {p : LexiconParts}
  {c : Lexicon}

/-! ## Groups that are counted -/

/-- How many groups a pattern opens that record their match. -/
def Pattern.declaredGroups (pattern : String) : Nat :=
  (Expr.ofText? pattern.toList).toOption.elim 0 Expr.declared

/-- Whether all the groups that a pattern opens are counted once it is
compiled. -/
def Pattern.CountsGroups (pattern : String) : Prop :=
  ∀ own, Compiled.ofText? pattern = .ok own →
    own.groups = 1 + declaredGroups pattern

instance (pattern : String) : Decidable (Pattern.CountsGroups pattern) :=
  inferInstanceAs (Decidable (∀ own, Compiled.ofText? pattern = .ok own →
    own.groups = 1 + Pattern.declaredGroups pattern))

/-- Whether all groups of the first `n` alternatives are counted. -/
def Lexicon.CountsBefore (c : Lexicon) (n : Nat) : Prop :=
  ∀ a ∈ c.alternatives.take n, Pattern.CountsGroups a.2

theorem Pattern.IsPattern.declaredGroups_eq {pattern : String} {q : Progress}
    (h : IsPattern pattern.toList q) :
    declaredGroups pattern = q.groups := by
  rw [declaredGroups, Pattern.ofText?_eq_ok_iff.mpr ⟨q, h, rfl⟩,
    ← h.declared_eq]
  rfl

theorem Pattern.IsPattern.countsGroups_iff {pattern : String} {q : Progress}
    (h : IsPattern pattern.toList q) :
    CountsGroups pattern ↔ q.branches.close.recorded = q.groups := by
  simp only [CountsGroups, h.compiled, Except.ok.injEq, forall_eq',
    h.declaredGroups_eq, Compiled.ofExpr]
  omega

/-- The alternatives are numbered with no more than the groups in front, and
with all of them if all are counted. -/
theorem sum_counted {as : List ((Role × String) × Nat)} {qs : List Progress}
    (readers : List.Forall₂ ReadsTo as qs) :
    (as.map (·.2 + 1)).sum ≤ (qs.map (·.groups + 1)).sum ∧
      ((as.map (·.2 + 1)).sum = (qs.map (·.groups + 1)).sum ↔
        ∀ a ∈ as, Pattern.CountsGroups a.1.2) := by
  induction readers with
  | nil => simp
  | @cons a q as qs here _ ih =>
    obtain ⟨pattern, count⟩ := here
    have counts := pattern.toIsPattern.countsGroups_iff
    have fewer := q.branches.close.recorded_le_declared
    rw [pattern.toIsPattern.declared_eq] at fewer
    rw [List.forall_mem_cons, counts, ← ih.2]
    simp only [List.map_cons, List.sum_cons]
    omega

theorem LexiconParts.countsBefore_iff (whole : p.lexicon = .ok c)
    {qs : List Progress} (readers : List.Forall₂ ReadsTo p.counted qs)
    (n : Nat) :
    1 + ((p.counted.take n).map (·.2 + 1)).sum ≤ outerNumber 1 qs n ∧
      (1 + ((p.counted.take n).map (·.2 + 1)).sum = outerNumber 1 qs n ↔
        c.CountsBefore n) := by
  have sums := sum_counted (List.forall₂_take n readers)
  have front : c.CountsBefore n ↔ ∀ a ∈ p.counted.take n,
      Pattern.CountsGroups a.1.2 := by
    rw [Lexicon.CountsBefore, ← map_counted whole,
      ← List.map_take, List.forall_mem_map]
  rw [front, ← sums.2, outerNumber]
  omega

/-! ## Dispatch -/

/-- A match is that of the alternative at a place: it starts where an
alternative first matches, and is what the first of those matches there. -/
structure Lexicon.Chosen (alternatives : List Compiled) (text : List UInt8)
    (m : Match) (i : Nat) : Prop where
  own : ∃ a m', alternatives[i]? = some a ∧ a.matchAt? text m.start = some m' ∧
    m'.group? 0 = m.group? 0
  leftmost : ∀ a ∈ alternatives, ∀ offset < m.start,
    a.matchAt? text offset = none
  first : ∀ j < i, ∀ a, alternatives[j]? = some a →
    a.matchAt? text m.start = none

/-- What the groups of a match say about the alternative at a place that was
matched. -/
structure Lexicon.Tells (c : Lexicon) (m : Match) (i : Nat) : Prop where
  own : ∀ group role, c.outerGroups[i]? = some (group, role) →
    (m.group? group = m.group? 0 ↔ c.CountsBefore i)
  others : c.CountsBefore (i + 1) → ∀ j ≠ i, ∀ group role,
    c.outerGroups[j]? = some (group, role) →
    m.group? group = none
  role : c.CountsBefore i → m.start < m.stop →
    c.classify m = (c.alternatives[i]?).map (·.1)

theorem Lexicon.CountsBefore.mono {n n' : Nat} (h : c.CountsBefore n)
    (less : n' ≤ n) : c.CountsBefore n' :=
  fun a mem => h a (List.take_subset_take_left _ less mem)

theorem Pattern.Match.fills_of_none {m : Match} {group : Nat}
    (idle : m.group? group = none) :
    m.fills group = false := by
  simp [fills, idle]

/-- The group of an alternative is numbered behind all that are counted in
front. -/
theorem LexiconParts.of_getElem?_outerGroups
    (whole : p.lexicon = .ok c) {i group : Nat} {role : Role}
    (here : c.outerGroups[i]? = some (group, role)) :
    group = 1 + ((p.counted.take i).map (·.2 + 1)).sum ∧
      c.alternatives[i]?.map (·.1) = some role := by
  rw [outerGroups_eq whole, getElem?_numberCounted] at here
  obtain ⟨a, place, same⟩ := Option.map_eq_some_iff.mp here
  cases same
  rw [← map_counted whole, List.getElem?_map, place]
  exact ⟨rfl, rfl⟩

section

variable {qs : List Progress}
  (readers : List.Forall₂ ReadsTo p.counted qs)

include readers

/-- At a position where the master pattern does not match, none of its
alternatives does. -/
theorem LexiconParts.matchAt?_eq_none_iff (whole : p.lexicon = .ok c)
    {text : List UInt8} {offset : Nat} (inside : offset ≤ text.length) :
    c.master.matchAt? text offset = none ↔
      ∀ q ∈ qs, (Compiled.ofExpr q.branches.close).matchAt? text offset
      = none := by
  rw [master_eq whole readers, Pattern.matchAt?_choice_eq_none
    (Pattern.numberParts_ne_nil 1 (readers_ne_nil readers)) inside]
  exact Pattern.forall_mem_numberParts
    (P := fun e => (Compiled.ofExpr e).matchAt? text offset = none) 1 qs

theorem LexiconParts.search?_eq_none_iff (whole : p.lexicon = .ok c)
    (text : List UInt8) :
    c.master.search? text = none ↔
      ∀ q ∈ qs, (Compiled.ofExpr q.branches.close).search? text = none := by
  simp only [Compiled.search?_eq_none_iff]
  constructor
  · exact fun none q mem offset inside =>
      (matchAt?_eq_none_iff readers whole inside).mp (none offset inside) q mem
  · exact fun none offset inside =>
      (matchAt?_eq_none_iff readers whole inside).mpr fun q mem =>
        none q mem offset inside

/-- A match of the master pattern is that of one alternative. -/
theorem LexiconParts.exists_winner (whole : p.lexicon = .ok c)
    {text : List UInt8} {m : Match} (found : c.master.search? text = some m) :
    ∃ i q, Winner qs text m.start m i q ∧ ∀ q ∈ qs, ∀ offset < m.start,
      (Compiled.ofExpr q.branches.close).matchAt? text offset = none := by
  obtain ⟨inside, here, none⟩ := Compiled.exists_matchAt?_of_search? found
  rw [master_eq whole readers] at here
  have numbered : ∀ q ∈ qs, q.branches.close.indices
      = List.range' 1 q.groups := by
    intro q mem
    obtain ⟨i, place⟩ := List.getElem?_of_mem mem
    obtain ⟨a, -, reads⟩ := exists_getElem?_of_forall₂ readers place
    exact reads.enclosable.indices_eq
  obtain ⟨i, q, winner⟩ :=
    Pattern.exists_winner numbered (readers_ne_nil readers) inside here
  exact ⟨i, q, winner, fun q mem offset before =>
    (matchAt?_eq_none_iff readers whole (by omega)).mp
      (none offset before) q mem⟩

section

variable (whole : p.lexicon = .ok c) {text : List UInt8} {m : Match} {i : Nat}
  {q : Progress} (winner : Winner qs text m.start m i q)

include whole winner

/-- The group of the alternative that was matched takes part if all groups in
front are counted, and else it is that of a group in front. -/
theorem LexiconParts.own_group {group : Nat} {role : Role}
    (here : c.outerGroups[i]? = some (group, role)) :
    m.group? group = m.group? 0 ↔ c.CountsBefore i := by
  obtain ⟨fewer, exact⟩ := countsBefore_iff whole readers i
  obtain ⟨number, -⟩ := of_getElem?_outerGroups whole here
  rw [← number] at fewer exact
  rw [← exact]
  constructor
  · intro same
    by_contra other
    have none := winner.others group (by omega) (.inl (by omega))
    obtain ⟨stop, span⟩ := winner.exists_stop
    rw [none, span] at same
    cases same
  · rintro rfl
    exact winner.whole.symm

/-- The groups of alternatives in front take no part. -/
theorem LexiconParts.group_in_front {j group : Nat} {role : Role}
    (counts : c.CountsBefore j) (before : j < i)
    (there : c.outerGroups[j]? = some (group, role)) :
    m.group? group = none := by
  rw [(of_getElem?_outerGroups whole there).1,
    (countsBefore_iff whole readers j).2.mpr counts]
  exact winner.other (Nat.lt_trans before
    (List.getElem?_eq_some_iff.mp winner.place).1) (Nat.ne_of_lt before)

/-- The groups of alternatives behind take no part. -/
theorem LexiconParts.group_behind {j group : Nat}
    {role : Role} (counts : c.CountsBefore (i + 1)) (behind : i < j)
    (there : c.outerGroups[j]? = some (group, role)) :
    m.group? group = none := by
  obtain ⟨number, -⟩ := of_getElem?_outerGroups whole there
  refine winner.others group (by omega) (.inr ?_)
  obtain ⟨between, front⟩ :=
    List.take_prefix_take_left (l := p.counted) (show i + 1 ≤ j from behind)
  have here := (countsBefore_iff whole readers (i + 1)).2.mpr counts
  have next := Pattern.outerNumber_lt 1 winner.place
    (show i < i + 1 from Nat.lt_succ_self i)
  rw [number, ← front, List.map_append, List.sum_append]
  omega

/-- A match with some text stands for the alternative that was matched. -/
theorem LexiconParts.classify_winner (counts : c.CountsBefore i)
    (nonempty : m.start < m.stop) :
    c.classify m = c.alternatives[i]?.map (·.1) := by
  obtain ⟨a, place, reads⟩ := exists_getElem?_of_forall₂ readers winner.place
  have here : c.outerGroups[i]? = some
      (1 + ((p.counted.take i).map (·.2 + 1)).sum, a.1.1) := by
    rw [outerGroups_eq whole, getElem?_numberCounted, place]
    rfl
  obtain ⟨inside, entry⟩ := List.getElem?_eq_some_iff.mp here
  rw [Lexicon.classify_eq, (of_getElem?_outerGroups whole here).2,
    Option.map_eq_some_iff]
  refine ⟨_, List.find?_eq_some_iff_getElem.mpr
    ⟨?_, i, inside, entry, fun j before => ?_⟩, rfl⟩
  · obtain ⟨stop, span⟩ := winner.exists_stop
    have stops : m.stop = stop := by simp [Match.stop, span]
    rw [Match.fills, (own_group readers whole winner here).mpr counts, span]
    simp only [bne_iff_ne]
    omega
  · have there := List.getElem?_eq_getElem (Nat.lt_trans before inside)
    have idle := group_in_front readers whole winner
      (counts.mono (Nat.le_of_lt before)) before there
    simpa using Pattern.Match.fills_of_none idle

/-- The groups of a match tell which alternative was matched. -/
theorem LexiconParts.tells : c.Tells m i where
  own _ _ := own_group readers whole winner
  others counts j other _ _ there := by
    rcases Nat.lt_or_gt_of_ne other with before | behind
    · exact group_in_front readers whole winner (counts.mono (by omega))
        before there
    · exact group_behind readers whole winner counts behind there
  role := classify_winner readers whole winner

end

end

/-- The master pattern records one group for each alternative and those that are
counted inside. -/
theorem LexiconParts.groups_master {qs : List Progress}
    (readers : List.Forall₂ ReadsTo p.counted qs) (whole : p.lexicon = .ok c) :
    c.master.groups = 1 + (c.alternatives.map fun a =>
      1 + Pattern.declaredGroups a.2).sum
      ↔ c.CountsBefore c.alternatives.length := by
  have recorded : p.counted.map (·.2 + 1)
      = qs.map (·.branches.close.recorded + 1) :=
    map_eq_of_forall₂ readers fun _ _ reads => by rw [reads.count]
  have declared : p.counted.map (fun a => 1 + Pattern.declaredGroups a.1.2)
      = qs.map (·.groups + 1) :=
    map_eq_of_forall₂ readers fun _ _ reads => by
      rw [reads.enclosable.declaredGroups_eq, Nat.add_comm]
  have all : c.CountsBefore c.alternatives.length ↔ ∀ a ∈ p.counted,
      Pattern.CountsGroups a.1.2 := by
    rw [Lexicon.CountsBefore, List.take_length,
      ← map_counted whole, List.forall_mem_map]
  rw [all, ← (sum_counted readers).2, master_eq whole readers,
    ← map_counted whole, List.map_map, recorded]
  change (Expr.ofParts (numberParts 1 qs)).recorded + 1
    = 1 + (p.counted.map _).sum ↔ _
  rw [Pattern.recorded_numberParts, ← declared]
  simp only [Function.comp_def]
  omega

/-- The alternatives of a lexicon are those of the grammar: the kinds of tokens
in the order of their ids, white space and, with a fallback, errors. -/
structure Lexicon.Lists (c : Lexicon) (g : Grammar) (options : LexiconOptions) :
    Prop where
  kinds : c.rules.map (·.kind) = g.tokenKinds options.reserved
  ascending : g.rules.Ordered → (c.rules.map (·.kind.id)).Pairwise (· < ·)
  fragments : ∀ r ∈ c.rules, g.fragmentText r.kind.id = .ok r.fragment
  whitespace : g.whitespacePattern options.reserved = .ok c.whitespace
  fallback : c.hasFallback = options.fallback

theorem Lexicon.lists_of_ofGrammar
    (made : Lexicon.ofGrammar g options = .ok c) : c.Lists g options := by
  obtain ⟨p, parts, whole⟩ := of_ofGrammar made
  obtain ⟨-, rules, white, -⟩ := LexiconParts.compile_of_lexicon whole
  have kinds : c.rules.map (·.kind) = g.tokenKinds options.reserved :=
    rules ▸ parts.kinds
  refine ⟨kinds, fun ordered => ?_, fun r mem => ?_,
    white ▸ parts.whitespace, ?_⟩
  · have ids : c.rules.map (·.kind.id) = (g.tokenKinds options.reserved).map
        (·.id) := by
      rw [← kinds, List.map_map]
      rfl
    rw [ids]
    exact ordered.sublist (g.tokenKinds_ids_sublist options.reserved)
  · exact (Grammar.of_tokenRule (parts.rules r (rules ▸ mem))).2.1
  · rw [LexiconParts.hasFallback_eq whole, parts.fallback]

/-- **The master pattern dispatches.** A lexicon whose fragments are patterns by
themselves matches what its alternatives match: a match of the master pattern is
that of one alternative, and the groups tell which, exactly if all groups of
those in front are counted. -/
theorem Lexicon.master_dispatches (made : Lexicon.ofGrammar g options = .ok c)
    (alone : ∀ r ∈ c.rules, ∃ own, Compiled.ofText? r.fragment = .ok own) :
    c.Lists g options ∧ c.outerGroups.map (·.2) = c.alternatives.map (·.1) ∧
      (c.master.groups = 1 + (c.alternatives.map fun a =>
        1 + Pattern.declaredGroups a.2).sum
        ↔ c.CountsBefore c.alternatives.length) ∧
      ∃ as, List.Forall₂ (fun a own => Compiled.ofText? a.2 = .ok own)
        c.alternatives as ∧
        (∀ text, c.master.search? text = none ↔
          ∀ a ∈ as, a.search? text = none) ∧
        ∀ text m, c.master.search? text = some m → ∃ i,
        Lexicon.Chosen as text m i ∧ c.Tells m i := by
  obtain ⟨p, parts, whole⟩ := of_ofGrammar made
  obtain ⟨-, rules, -⟩ := LexiconParts.compile_of_lexicon whole
  obtain ⟨qs, readers⟩ := LexiconParts.exists_readers parts (rules ▸ alone)
  have own {i : Nat} {q : Progress} (place : qs[i]? = some q) :
      (qs.map fun q => Compiled.ofExpr q.branches.close)[i]?
        = some (.ofExpr q.branches.close) := by
    rw [List.getElem?_map, place]
    rfl
  refine ⟨lists_of_ofGrammar made, ?_, ?_,
    qs.map fun q => .ofExpr q.branches.close, ?_, fun text => ?_,
    fun text m found => ?_⟩
  · rw [LexiconParts.outerGroups_eq whole, ← LexiconParts.map_counted whole,
      map_numberCounted, List.map_map]
    rfl
  · exact LexiconParts.groups_master readers whole
  · rw [← LexiconParts.map_counted whole,
      List.forall₂_map_left_iff, List.forall₂_map_right_iff]
    exact readers.imp fun _ _ reads => reads.enclosable.compiled
  · rw [LexiconParts.search?_eq_none_iff readers whole, List.forall_mem_map]
  · obtain ⟨i, q, winner, leftmost⟩ :=
      LexiconParts.exists_winner readers whole found
    refine ⟨i, ⟨?_, List.forall_mem_map.mpr leftmost,
      fun j before a there => ?_⟩,
      LexiconParts.tells readers whole winner⟩
    · obtain ⟨m', found', groups⟩ := winner.own
      exact ⟨_, m', own winner.place, found',
        by rw [winner.whole, ← groups 0 (Nat.zero_le _), Nat.add_zero]⟩
    · rw [List.getElem?_map, Option.map_eq_some_iff] at there
      obtain ⟨q', place, rfl⟩ := there
      exact winner.first j before q' place

end

/-- The grammar of two tokens, of which the first has a group of its own and a
bar. -/
def groupInside : Grammar where
  symbols := [⟨"a", false⟩, ⟨"b", false⟩]
  rules := [(0, [[.literal "(x)y|w"]]), (1, [[.literal "z"]])]
  parameters := []
  start := none

/-- The group inside the first token is counted, and a `z` is known for the
second. -/
theorem groupInside_dispatches :
    ∃ c, Lexicon.ofGrammar groupInside ⟨true, .default⟩ = .ok c ∧
      (∀ r ∈ c.rules, ∃ own, Compiled.ofText? r.fragment = .ok own) ∧
      (∃ m, c.master.search? [119, 122] = some m ∧
        c.classify m = some (.token ⟨0, "a"⟩)) ∧
      (∃ m, c.master.search? [122] = some m ∧
        c.classify m = some (.token ⟨1, "b"⟩)) ∧
      c.outerGroups = [(1, .token ⟨0, "a"⟩), (3, .token ⟨1, "b"⟩),
        (4, .whitespace), (5, .error)] ∧
      c.Lists groupInside ⟨true, .default⟩ ∧
      ∃ as, List.Forall₂ (fun a own => Compiled.ofText? a.2 = .ok own)
      c.alternatives as ∧
        ∀ text m, c.master.search? text = some m → ∃ i,
        Lexicon.Chosen as text m i ∧ c.Tells m i := by
  obtain ⟨c, made, alone, first, second, groups⟩ :
      ∃ c, Lexicon.ofGrammar groupInside ⟨true, .default⟩ = .ok c ∧
        (c.rules.all fun r => (Compiled.ofText? r.fragment).toOption.isSome)
        = true ∧
        (c.master.search? [119, 122]).bind c.classify = some (.token ⟨0, "a"⟩) ∧
        (c.master.search? [122]).bind c.classify = some (.token ⟨1, "b"⟩) ∧
        c.outerGroups = [(1, .token ⟨0, "a"⟩), (3, .token ⟨1, "b"⟩),
          (4, .whitespace), (5, .error)] :=
    Lexicon.exists_of_ofGrammar (by decide +kernel)
  have alone' : ∀ r ∈ c.rules, ∃ own, Compiled.ofText? r.fragment = .ok own :=
    fun r mem => exists_ok_of_isSome (List.all_eq_true.mp alone r mem)
  obtain ⟨lists, -, -, as, own, -, chosen⟩ :=
    Lexicon.master_dispatches made alone'
  exact ⟨c, made, alone', Option.bind_eq_some_iff.mp first,
    Option.bind_eq_some_iff.mp second, groups, lists,
    as, own, chosen⟩

/-- The grammar of two tokens, of which the first has a group that is repeated
no times at all. -/
def groupLeftOut : Grammar where
  symbols := [⟨"a", false⟩, ⟨"c", false⟩]
  rules := [(0, [[.literal "(x)\x7b0\x7da"]]), (1, [[.literal "c"]])]
  parameters := []
  start := none

/-- The group that is left out is not counted, so that a `c`, which the second
token alone matches, is taken for white space. -/
theorem groupLeftOut_misclassifies :
    ∃ c, Lexicon.ofGrammar groupLeftOut ⟨false, .default⟩ = .ok c ∧
      c.alternatives = [(.token ⟨0, "a"⟩, "(x)\x7b0\x7da"),
        (.token ⟨1, "c"⟩, "c"), (.whitespace, "\\s+")] ∧
      (c.alternatives.map fun a => (Compiled.ofText? a.2).toOption.any
        fun own => (own.matchAt? [99] 0).isSome)
        = [false, true, false] ∧
      ((c.master.search? [99]).map fun m => (m.start, m.stop, c.classify m))
      = some (0, 1, some .whitespace) :=
  Lexicon.exists_of_ofGrammar (by decide +kernel)

end Lexigram
