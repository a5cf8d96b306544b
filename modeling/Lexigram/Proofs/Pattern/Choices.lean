import Lexigram.Proofs.Pattern.Recording

/-!
Choices of patterns. Patterns in parentheses with bars between them are read as
a choice of groups, which are numbered one after the other, each behind the
groups of those before it (`ofText?_choiceOf`). What matches at a position is
the first of the patterns that matches there (`matchAt?_choice`), and the match
has the groups of that pattern and no others (`Winner`).
-/

namespace Lexigram.Pattern

/-- Patterns in groups that record their match, with bars between them. -/
def choiceOf : List (List Char) → List Char
  | [] => []
  | [cs] => '(' :: (cs ++ [')'])
  | cs :: css => '(' :: (cs ++ ')' :: '|' :: choiceOf css)

theorem choiceOf_cons (cs : List Char) {css : List (List Char)}
    (others : css ≠ []) :
    choiceOf (cs :: css) = '(' :: (cs ++ ')' :: '|' :: choiceOf css) := by
  cases css with
  | nil => exact absurd rfl others
  | cons cs' css => rfl

/-- The expressions of patterns, each with the number of the group around it. -/
def numberParts (next : Nat) : List Progress → List (Nat × Expr)
  | [] => []
  | q :: qs =>
    (next, q.branches.close) :: numberParts (next + (q.groups + 1)) qs

/-- The number of the group around a pattern: each pattern before it has its own
groups and one around them. -/
def outerNumber (next : Nat) (qs : List Progress) (i : Nat) : Nat :=
  next + ((qs.take i).map (·.groups + 1)).sum

theorem getElem?_numberParts (next : Nat) (qs : List Progress) (i : Nat) :
    (numberParts next qs)[i]? = qs[i]?.map fun q =>
      (outerNumber next qs i, q.branches.close) := by
  induction qs generalizing next i with
  | nil => rfl
  | cons q qs ih =>
    cases i with
    | zero => rfl
    | succ i => simp [numberParts, ih, outerNumber, Nat.add_assoc]

theorem numberParts_ne_nil (next : Nat) {qs : List Progress}
    (nonempty : qs ≠ []) : numberParts next qs ≠ [] := by
  cases qs with
  | nil => exact absurd rfl nonempty
  | cons q qs => exact List.cons_ne_nil _ _

theorem forall_mem_numberParts {P : Expr → Prop} (next : Nat)
    (qs : List Progress) :
    (∀ part ∈ numberParts next qs, P part.2) ↔
      ∀ q ∈ qs, P q.branches.close := by
  induction qs generalizing next with
  | nil => simp [numberParts]
  | cons q qs ih => simp only [numberParts, List.forall_mem_cons, ih]

/-- The groups of a pattern are numbered in front of those behind it. -/
theorem outerNumber_lt (next : Nat) {qs : List Progress} {i j : Nat}
    {q : Progress} (here : qs[i]? = some q) (before : i < j) :
    outerNumber next qs i + q.groups < outerNumber next qs j := by
  induction qs generalizing next i j with
  | nil => cases here
  | cons q' qs ih =>
    obtain ⟨j, rfl⟩ :=
      Nat.exists_eq_add_one_of_ne_zero (Nat.ne_zero_of_lt before)
    have front (k : Nat) : outerNumber next (q' :: qs) (k + 1)
        = outerNumber (next + (q'.groups + 1)) qs k := by
      simp [outerNumber, Nat.add_assoc]
    cases i with
    | zero =>
      cases here
      rw [front]
      simp only [outerNumber, List.take_zero, List.map_nil, List.sum_nil]
      omega
    | succ i =>
      rw [front, front]
      exact ih _ here (Nat.lt_of_succ_lt_succ before)

theorem recorded_numberParts (next : Nat) (qs : List Progress) :
    (Expr.ofParts (numberParts next qs)).recorded
      = (qs.map (·.branches.close.recorded + 1)).sum := by
  rw [Expr.recorded_ofParts]
  induction qs generalizing next with
  | nil => rfl
  | cons q qs ih => simp [numberParts, ih]

/-! ## Reading -/

theorem readPattern_bar (base : Progress) (flags : base.flags = .initial)
    (cs : List Char) :
    readPattern base 0 ('|' :: cs)
      = readPattern { base with branches := base.branches.next } 0 cs := by
  rw [readPattern_element (Flags.dropGap_of_initial flags _)]
  rfl

theorem sequence_capture {base : Progress} (start : base.branches.items = [])
    (q : Progress) :
    (base.capture q).branches.sequence
      = q.branches.close.numbered (base.groups + 1) := by
  simp [Progress.capture, Progress.around, Branches.push, Branches.sequence,
    start, Expr.ofSequence, Expr.numbered]

/-- Behind the choice no group is open but those that were, and the groups are
the last alternatives. -/
theorem readPattern_choiceOf {css : List (List Char)}
    {qs : List Progress} (patterns : List.Forall₂ Enclosable css qs)
    (nonempty : qs ≠ []) {base final : Progress}
    (flags : base.flags = .initial) (start : base.branches.items = [])
    (ok : readPattern base 0 (choiceOf css) = .ok final) :
    final.opened = base.opened ∧ final.branches.close =
      base.branches.finished.foldl (fun behind e => .choice e behind)
        (Expr.ofParts (numberParts (base.groups + 1) qs)) := by
  induction patterns generalizing base with
  | nil => exact absurd rfl nonempty
  | @cons cs q css qs pattern others ih =>
    have fresh : ∀ name ∈ q.names, name ∉ base.names := by
      cases others <;> exact fresh_of_capture pattern.toIsPattern flags ok
    cases others with
    | nil =>
      rw [choiceOf, readPattern_capture pattern flags fresh] at ok
      cases ok
      refine ⟨rfl, ?_⟩
      rw [Branches.close, sequence_capture start]
      rfl
    | @cons cs' q' css qs pattern' others =>
      rw [choiceOf_cons cs (List.cons_ne_nil cs' css), readPattern_capture
        pattern flags fresh, readPattern_bar (base.capture q) flags] at ok
      have flags' : ({ base.capture q with
          branches := (base.capture q).branches.next } : Progress).flags
          = .initial :=
        flags
      obtain ⟨opened, close⟩ := ih (List.cons_ne_nil _ _) flags' rfl ok
      refine ⟨opened, close.trans ?_⟩
      have next : (base.capture q).groups + 1
          = base.groups + 1 + (q.groups + 1) := by
        simp only [Progress.capture, Progress.around, Option.elim_some]
        omega
      simp only [Branches.next, List.foldl_cons, sequence_capture start, next]
      rfl

/-- A choice of patterns is read as a choice of numbered groups. -/
theorem ofText?_choiceOf {css : List (List Char)} {qs : List Progress}
    (patterns : List.Forall₂ Enclosable css qs) (nonempty : qs ≠ []) {e : Expr}
    (ok : Expr.ofText? (choiceOf css) = .ok e) :
    e = Expr.ofParts (numberParts 1 qs) := by
  obtain ⟨final, ⟨read, complete⟩, rfl⟩ := ofText?_eq_ok_iff.mp ok
  exact (readPattern_choiceOf patterns nonempty rfl rfl read.readPattern_eq).2

/-! ## Matching -/

section

variable {text : List UInt8} {offset : Nat}

/-- Nothing of a choice matches at a position where none of the patterns
matches. -/
theorem matchAt?_choice_eq_none {parts : List (Nat × Expr)}
    (nonempty : parts ≠ []) (inside : offset ≤ text.length) :
    (Compiled.ofExpr (Expr.ofParts parts)).matchAt? text offset = none ↔
      ∀ part ∈ parts, (Compiled.ofExpr part.2).matchAt? text offset = none := by
  have (e : Expr) : (Compiled.ofExpr e).matchAt? text offset = none ↔
      e.threadAt? text offset = none :=
    Option.map_eq_none_iff
  simp only [this, Expr.threadAt?_ofParts nonempty inside,
    Option.map_eq_none_iff, Expr.firstThread?, List.findSome?_eq_none_iff]

/-- The match at a position is that of the pattern `q` at a place, which is the
first that matches there. The group around that pattern takes part with the
whole match, the groups inside are those of the pattern by itself, and no other
group takes part. -/
structure Winner (qs : List Progress) (text : List UInt8) (offset : Nat)
    (m : Match) (i : Nat) (q : Progress) : Prop where
  place : qs[i]? = some q
  own : ∃ m', (Compiled.ofExpr q.branches.close).matchAt? text offset
    = some m' ∧ ∀ k ≤ q.groups, m.group? (outerNumber 1 qs i + k) = m'.group? k
  first : ∀ j < i, ∀ q', qs[j]? = some q' →
    (Compiled.ofExpr q'.branches.close).matchAt? text offset = none
  others : ∀ n ≠ 0, n < outerNumber 1 qs i ∨ outerNumber 1 qs i + q.groups < n →
    m.group? n = none
  whole : m.group? 0 = m.group? (outerNumber 1 qs i)

/-- Of the outer groups that of the pattern alone takes part. -/
theorem Winner.other {qs : List Progress} {m : Match} {i : Nat} {q : Progress}
    (h : Winner qs text offset m i q) {j : Nat} (inside : j < qs.length)
    (other : j ≠ i) : m.group? (outerNumber 1 qs j) = none := by
  have positive : outerNumber 1 qs j ≠ 0 := by
    unfold outerNumber
    omega
  refine h.others _ positive ?_
  rcases Nat.lt_or_gt_of_ne other with before | behind
  · have := outerNumber_lt 1 (List.getElem?_eq_getElem inside) before
    exact .inl (by omega)
  · exact .inr (outerNumber_lt 1 h.place behind)

/-- The whole match starts at the position. -/
theorem Winner.exists_stop {qs : List Progress} {m : Match} {i : Nat}
    {q : Progress} (h : Winner qs text offset m i q) :
    ∃ stop, m.group? 0 = some (offset, stop) := by
  obtain ⟨m', own, groups⟩ := h.own
  obtain ⟨t, -, rfl⟩ := Option.map_eq_some_iff.mp own
  rw [h.whole, ← Nat.add_zero (outerNumber 1 qs i), groups 0 (Nat.zero_le _)]
  exact ⟨t.offset, rfl⟩

/-- A match of a choice of patterns is that of one of them. -/
theorem exists_winner {qs : List Progress}
    (counts : ∀ q ∈ qs, q.branches.close.indices = List.range' 1 q.groups)
    (nonempty : qs ≠ []) (inside : offset ≤ text.length) {m : Match}
    (found : (Compiled.ofExpr (Expr.ofParts (numberParts 1 qs))).matchAt? text
      offset = some m) :
    ∃ i q, Winner qs text offset m i q := by
  have parts := numberParts_ne_nil 1 nonempty
  obtain ⟨u, reached, rfl⟩ := Option.map_eq_some_iff.mp found
  have saved := Expr.saves_of_threadAt? inside reached
  have group : ∀ n, n ≠ 0 → ((Compiled.ofExpr
      (Expr.ofParts (numberParts 1 qs))).matchOf offset u).group? n
      = savedGroup u.saves n := fun n => group?_matchOf saved offset n
  change Expr.threadAt? _ text offset = _ at reached
  rw [Expr.threadAt?_ofParts parts inside] at reached
  obtain ⟨⟨n, t⟩, first, rfl⟩ := Option.map_eq_some_iff.mp reached
  obtain ⟨front, ⟨n', e⟩, behind, whole, own, none⟩ :=
    List.findSome?_eq_some_iff.mp first
  obtain ⟨t', ran, same⟩ := Option.map_eq_some_iff.mp own
  cases same
  have here := getElem?_numberParts 1 qs front.length
  rw [whole, List.getElem?_append_right (Nat.le_refl _), Nat.sub_self] at here
  obtain ⟨q, place, same⟩ := Option.map_eq_some_iff.mp here.symm
  cases same
  -- the slots of the expression's own groups lie between its outer group and
  -- that of the next
  have slots : ∀ s ∈ t.saves, s.1 / 2 ≠ 0 ∧ s.1 / 2 ≤ q.groups := by
    intro s mem
    have own := Expr.saves_program (Expr.saves_of_threadAt? inside ran s mem)
    rw [counts q (List.mem_of_getElem? place), List.mem_range'_1] at own
    omega
  have positive : outerNumber 1 qs front.length ≠ 0 := by
    unfold outerNumber
    omega
  refine ⟨front.length, q, place,
    ⟨_, Option.map_eq_some_iff.mpr ⟨t, ran, rfl⟩, fun k le => ?_⟩, ?_, ?_, ?_⟩
  · rcases Nat.eq_zero_or_pos k with rfl | inner
    · rw [Nat.add_zero, group _ positive]
      exact Thread.savedGroup_leave_self fun s mem => (slots s mem).1
    · rw [group _ (by omega), group?_matchOf
        (Expr.saves_of_threadAt? inside ran) offset k (by omega)]
      exact Thread.savedGroup_leave (by omega)
  · intro j before q' there
    have listed := getElem?_numberParts 1 qs j
    rw [whole, List.getElem?_append_left before, there] at listed
    have idle := none _ (List.mem_of_getElem? listed)
    exact Option.map_eq_none_iff.mpr (Option.map_eq_none_iff.mp idle)
  · intro n positive' other
    rw [group _ positive']
    exact Thread.savedGroup_leave_other (fun s mem => (slots s mem).2) other
  · rw [group _ positive, Thread.savedGroup_leave_self fun s mem =>
      (slots s mem).1]
    rfl

end

end Lexigram.Pattern
