import Lexigram.Proofs.Text.Boundaries

/-!
Characters at the end of a list of bytes whose own end is missing.
`completeLength` cuts off such a beginning of a character, and nothing else; so
decoding what is in front of the cut, and what is behind it once more bytes have
come, is decoding all of the bytes (`completeLength_withholds`).
-/

namespace Lexigram.Text

/-- Whether bytes are the beginning of the encoding of a character, without its
end. -/
def IsUnfinished (bytes : List UInt8) : Prop :=
  bytes ≠ [] ∧ ∃ c : Char, bytes <+: String.utf8EncodeChar c ∧
    bytes ≠ String.utf8EncodeChar c

/-! ## Beginnings of characters -/

theorem fitting_le_length (intervals : List (UInt8 × UInt8))
    (bytes : List UInt8) :
    fitting intervals bytes ≤ intervals.length := by
  induction bytes generalizing intervals with
  | nil => cases intervals <;> simp [fitting]
  | cons b bytes ih =>
    cases intervals with
    | nil => simp [fitting]
    | cons interval intervals =>
      rw [fitting]
      split
      · exact Nat.succ_le_succ (ih intervals)
      · exact Nat.zero_le _

/-- Bytes that all fit can be gone on with, by the first byte of each interval
that is left. -/
theorem exists_completion {intervals : List (UInt8 × UInt8)}
    (ordered : ∀ interval ∈ intervals, interval.1 ≤ interval.2)
    {bytes : List UInt8} (fits : fitting intervals bytes = bytes.length) :
    ∃ more, List.Forall₂ (fun interval b => interval.1 ≤ b ∧ b ≤ interval.2)
      intervals (bytes ++ more) := by
  induction intervals generalizing bytes with
  | nil =>
    cases bytes with
    | nil => exact ⟨[], .nil⟩
    | cons b bytes => simp [fitting] at fits
  | cons interval intervals ih =>
    rw [List.forall_mem_cons] at ordered
    cases bytes with
    | nil =>
      have none : fitting intervals [] = ([] : List UInt8).length := by
        cases intervals <;> rfl
      obtain ⟨more, inside⟩ := ih ordered.2 none
      exact ⟨interval.1 :: more, .cons ⟨UInt8.le_refl _, ordered.1⟩ inside⟩
    | cons b bytes =>
      rw [fitting] at fits
      split at fits
      · next here =>
        obtain ⟨more, inside⟩ := ih ordered.2 (Nat.succ_inj.mp fits)
        exact ⟨more, .cons here inside⟩
      · cases fits

theorem head_eq_cut_iff {lead : UInt8} {rest : List UInt8} :
    head lead rest = .cut (rest.length + 1) ↔ ∃ intervals,
      followers lead = some intervals ∧ fitting intervals rest = rest.length
      ∧ rest.length < intervals.length := by
  have fewer (intervals : List (UInt8 × UInt8)) :=
    fitting_le_length intervals rest
  cases leads : followers lead with
  | none => simp [head, leads]
  | some intervals =>
    simp only [head, leads, Option.some.injEq, exists_eq_left']
    have fewer := fewer intervals
    by_cases full : fitting intervals rest = intervals.length
    · simp [full]
      omega
    · rw [if_neg full]
      by_cases all : fitting intervals rest = rest.length
      · simp [all]
        omega
      · simp [all]

/-- A lead byte and some bytes are the beginning of a character if the head of
the list is cut behind them. -/
theorem isUnfinished_cons_iff {lead : UInt8} {rest : List UInt8} :
    IsUnfinished (lead :: rest) ↔ head lead rest = .cut (rest.length + 1) := by
  rw [head_eq_cut_iff]
  constructor
  · intro h
    obtain ⟨-, c, ⟨more, whole⟩, missing⟩ := h
    have front := charAtFront?_utf8EncodeChar c
    rw [← whole, List.cons_append] at front missing
    obtain ⟨intervals, leads, full, length, -⟩ :=
      charAtFront?_cons_eq_some.mp front
    have nonempty : more ≠ [] := by
      intro none
      simp [none] at missing
    have pos := List.length_pos_iff.mpr nonempty
    simp only [List.length_append, List.length_cons] at length
    have fits := fitting_take intervals (rest ++ more) rest.length
    rw [List.take_left, full, Nat.min_eq_left (by omega)] at fits
    exact ⟨intervals, leads, fits, by omega⟩
  · intro h
    obtain ⟨intervals, leads, fits, fewer⟩ := h
    have ordered (interval : UInt8 × UInt8)
        (mem : interval ∈ intervals) : interval.1 ≤ interval.2 :=
      (range_of_followers leads interval mem).2.1
    obtain ⟨more, inside⟩ := exists_completion ordered fits
    obtain ⟨c, encoding⟩ := exists_utf8EncodeChar leads inside
    refine ⟨List.cons_ne_nil _ _, c, ⟨more, encoding.symm⟩, ?_⟩
    rw [encoding]
    intro all
    have length := congrArg List.length all
    have same := inside.length_eq
    simp only [List.length_cons, List.length_append] at length same
    omega

/-- An unfinished character is a lead byte and two continuations at most. -/
theorem IsUnfinished.exists_cons {bytes : List UInt8} (h : IsUnfinished bytes) :
    ∃ lead rest, bytes = lead :: rest ∧ head lead rest = .cut (rest.length + 1)
      ∧ rest.length ≤ 2
      ∧ isContinuation lead = false ∧ ∀ b ∈ rest, isContinuation b = true := by
  obtain ⟨lead, rest, rfl⟩ := List.exists_cons_of_ne_nil h.1
  have cut := isUnfinished_cons_iff.mp h
  obtain ⟨intervals, leads, fits, fewer⟩ := head_eq_cut_iff.mp cut
  refine ⟨lead, rest, rfl, cut, ?_, ?_, ?_⟩
  · have most : intervals.length ≤ 3 := by
      simp only [followers] at leads
      repeat' split at leads
      all_goals cases leads
      all_goals simp
    omega
  · have range := lead_of_followers leads
    simp only [isContinuation, Bool.and_eq_false_iff,
      decide_eq_false_iff_not, UInt8.le_iff_toNat_le]
    simp
    omega
  · intro b mem
    have inside : b ∈ rest.take ((head lead rest).length - 1) := by
      rw [cut]
      simpa [Head.length] using mem
    exact isContinuation_of_mem_head inside

/-! ## The length without an unfinished character -/

theorem lastFrom?_append (front : List UInt8) (b : UInt8) (rest : List UInt8) :
    lastFrom? (front ++ b :: rest) (rest.length + 1)
      = if isContinuation b then none else some (b :: rest) := by
  have behind : (front ++ b :: rest).drop
      ((front ++ b :: rest).length - (rest.length + 1)) = b :: rest := by
    rw [List.length_append, List.length_cons,
      Nat.add_sub_cancel, List.drop_left]
  rw [lastFrom?, behind]
  cases continues : isContinuation b <;> simp [continues]

/-- The last lead byte is found, with the bytes behind it, if it is not too far
from the end. -/
theorem findSome?_lastFrom? {front rest : List UInt8}
    {lead : UInt8} (leads : isContinuation lead = false)
    (follow : ∀ b ∈ rest, isContinuation b = true) (short : rest.length ≤ 2) :
    [1, 2, 3].findSome? (lastFrom? (front ++ lead :: rest))
      = some (lead :: rest) := by
  -- the bytes behind it are passed over one by one, from the end on
  match rest with
  | [] =>
    have one := lastFrom?_append front lead []
    simp [leads] at one
    simp [one]
  | [b] =>
    have one := lastFrom?_append (front ++ [lead]) b []
    have two := lastFrom?_append front lead [b]
    simp [leads, follow] at one two
    simp [one, two]
  | [b, b'] =>
    have one := lastFrom?_append (front ++ [lead, b]) b' []
    have two := lastFrom?_append (front ++ [lead]) b [b']
    have three := lastFrom?_append front lead [b, b']
    simp [leads, follow] at one two three
    simp [one, two, three]
  | _ :: _ :: _ :: _ => simp at short

/-- An unfinished character at the end is cut off. -/
theorem completeLength_append (front : List UInt8) {bytes : List UInt8}
    (h : IsUnfinished bytes) :
    completeLength (front ++ bytes) = front.length := by
  obtain ⟨lead, rest, rfl, cut, short, leads, follow⟩ := h.exists_cons
  simp only [completeLength, findSome?_lastFrom? leads follow short, cut,
    List.length_append, List.length_cons]
  omega

theorem eq_drop_of_lastFrom? {bytes last : List UInt8} {k : Nat}
    (h : lastFrom? bytes k = some last) :
    last = bytes.drop (bytes.length - last.length) := by
  rw [lastFrom?] at h
  split at h
  · cases h
  · next lead rest behind =>
    split at h
    · next found =>
      cases h
      have length := congrArg List.length behind
      rw [List.length_drop] at length
      rw [← length, show bytes.length - (bytes.length - (bytes.length - k))
        = bytes.length - k by omega, behind]
    · cases h

theorem eq_of_head_eq_cut {lead : UInt8} {rest : List UInt8} {n : Nat}
    (h : head lead rest = .cut n) :
    n = rest.length + 1 := by
  cases leads : followers lead with
  | none => simp [head, leads] at h
  | some intervals =>
    simp only [head, leads] at h
    split at h
    · cases h
    · split at h
      · next all =>
        cases h
        rw [all]
      · cases h

/-- What is cut off is an unfinished character. -/
theorem isUnfinished_of_completeLength_lt {bytes : List UInt8}
    (h : completeLength bytes < bytes.length) :
    IsUnfinished (bytes.drop (completeLength bytes)) := by
  rw [completeLength] at h ⊢
  split at h
  · next lead rest found =>
    split at h
    · next n cut =>
      obtain ⟨k, -, last⟩ := List.exists_of_findSome?_eq_some found
      have length := eq_of_head_eq_cut cut
      subst length
      have behind : bytes.drop (bytes.length - (rest.length + 1))
        = lead :: rest := (eq_drop_of_lastFrom? last).symm
      rw [behind]
      exact isUnfinished_cons_iff.mpr cut
    · omega
  · omega

theorem completeLength_le (bytes : List UInt8) :
    completeLength bytes ≤ bytes.length := by
  rw [completeLength]
  split
  · split
    · exact Nat.sub_le _ _
    · exact Nat.le_refl _
  · exact Nat.le_refl _

/-- The length without an unfinished character is a boundary, whatever bytes are
still to come. -/
theorem boundary_complete (bytes more : List UInt8) :
    Boundary (bytes ++ more) (completeLength bytes) := by
  by_cases h : completeLength bytes < bytes.length
  · -- what is cut off starts with a lead byte, which is in no other head
    obtain ⟨lead', rest', behind, -, -, leads, -⟩ :=
      (isUnfinished_of_completeLength_lt h).exists_cons
    have inside : ∀ lead rest, lead ::
        rest <:+ bytes.take (completeLength bytes) →
        (head lead (rest ++ (lead' :: rest' ++ more))).length
        ≤ rest.length + 1 := by
      intro lead rest _
      by_contra long
      have mem : lead' ∈ (rest ++ (lead' :: rest' ++ more)).take
          ((head lead (rest ++ (lead' :: rest' ++ more))).length - 1) := by
        rw [List.take_append, show (head lead
          (rest ++ (lead' :: rest' ++ more))).length - 1 - rest.length
          = (head lead (rest ++ (lead' :: rest' ++ more))).length - 2
          - rest.length + 1 by omega]
        simp
      have continues := isContinuation_of_mem_head mem
      simp [leads] at continues
    have boundary := boundary_append inside
    rw [← behind, ← List.append_assoc, List.take_append_drop, List.length_take,
      Nat.min_eq_left (Nat.le_of_lt h)] at boundary
    exact boundary
  · -- no head is cut at the end of the bytes
    have all : completeLength bytes = bytes.length :=
      Nat.le_antisymm (completeLength_le bytes) (Nat.le_of_not_lt h)
    rw [all]
    apply boundary_append
    intro lead rest suffix
    by_contra long
    have unfinished : IsUnfinished (lead :: rest) := by
      rw [isUnfinished_cons_iff, head_eq_cut_iff]
      rw [length_head] at long
      cases leads : followers lead with
      | none =>
        rw [leads, Option.elim_none] at long
        omega
      | some intervals =>
        rw [leads, Option.elim_some] at long
        have part := fitting_take intervals (rest ++ more) rest.length
        have fewer := fitting_le_length intervals (rest ++ more)
        rw [List.take_left] at part
        exact ⟨intervals, rfl, by omega, by omega⟩
    obtain ⟨front, rfl⟩ := suffix
    have cut := completeLength_append front unfinished
    rw [all, List.length_append, List.length_cons] at cut
    omega

/-- **What is withheld is exactly an unfinished character.** The length without
it is less than that of the bytes if and only if they end with a beginning of a
character, and then this is what is left out; no other end of the bytes is a
beginning of a character. Whatever bytes come behind, the text of all of them is
that of the bytes that were not withheld, and then that of those that were, with
what has come. -/
theorem completeLength_withholds (bytes : List UInt8) :
    (completeLength bytes < bytes.length
      ↔ ∃ last, last <:+ bytes ∧ IsUnfinished last)
      ∧ (∀ last, last <:+ bytes → IsUnfinished last →
        bytes.drop (completeLength bytes) = last)
      ∧ ∀ more, decodeLossy (bytes ++ more)
      = decodeLossy (bytes.take (completeLength bytes))
        ++ decodeLossy (bytes.drop (completeLength bytes) ++ more) := by
  have only : ∀ last, last <:+ bytes → IsUnfinished last →
      completeLength bytes + last.length = bytes.length
      ∧ bytes.drop (completeLength bytes) = last := by
    intro last suffix unfinished
    obtain ⟨front, rfl⟩ := suffix
    rw [completeLength_append front unfinished,
      List.length_append, List.drop_left]
    exact ⟨rfl, rfl⟩
  refine ⟨⟨?_, ?_⟩, fun last suffix unfinished =>
    (only last suffix unfinished).2, ?_⟩
  · intro less
    exact ⟨_, List.drop_suffix _ _, isUnfinished_of_completeLength_lt less⟩
  · rintro ⟨last, suffix, unfinished⟩
    have length := (only last suffix unfinished).1
    have pos := List.length_pos_iff.mpr unfinished.1
    omega
  · intro more
    have split := (boundary_complete bytes more).decodeLossy_eq
    rwa [List.take_append_of_le_length (completeLength_le bytes),
      List.drop_append_of_le_length (completeLength_le bytes)] at split

end Lexigram.Text
