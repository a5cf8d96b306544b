import Lexigram.Proofs.Text.Encoding

/-!
Where lossy decoding can be cut. The heads of a list of bytes stand one behind
the other, and at a boundary between two of them the text splits: it is that of
the bytes in front, and then that of the bytes behind
(`Boundary.decodeLossy_eq`). A line ends exactly where the byte of a line end
stands, wherever the bytes are cut (`count_newline_decodeLossy`).
-/

namespace Lexigram.Text

/-! ## Heads of parts -/

variable {lead : UInt8} {rest : List UInt8}

/-- A head is the same if bytes behind it are missing, but that it may count as
cut. -/
theorem head_take (lead : UInt8) (rest : List UInt8) {k : Nat}
    (inside : (head lead rest).length ≤ k + 1) :
    (head lead (rest.take k)).length = (head lead rest).length
      ∧ (head lead (rest.take k)).char = (head lead rest).char := by
  cases leads : followers lead with
  | none => simp [head, leads]
  | some intervals =>
    rw [length_head, leads, Option.elim_some] at inside
    have fit : fitting intervals (rest.take k) = fitting intervals rest := by
      rw [fitting_take]
      omega
    constructor
    · simp only [length_head, leads, Option.elim_some, fit]
    · simp only [head, leads, fit]
      by_cases full : fitting intervals rest = intervals.length
      · rw [if_pos full, if_pos full, List.take_take,
          Nat.min_eq_left (by omega)]
      · rw [if_neg full, if_neg full]
        split <;> split <;> rfl

/-! ## Boundaries -/

/-- Whether decoding comes by the place behind the first `n` bytes: no head lies
across it. -/
inductive Boundary : (bytes : List UInt8) → (n : Nat) → Prop where
  | front (bytes : List UInt8) : Boundary bytes 0
  | behind {lead : UInt8} {rest : List UInt8} {n : Nat}
      (more : Boundary (rest.drop ((head lead rest).length - 1)) n) :
      Boundary (lead :: rest) ((head lead rest).length + n)

/-- A boundary stays one if bytes behind it are missing. -/
theorem Boundary.take {bytes : List UInt8} {n m : Nat} (h : Boundary bytes n)
    (le : n ≤ m) :
    Boundary (bytes.take m) n := by
  induction h generalizing m with
  | front bytes => exact .front _
  | @behind lead rest n more ih =>
    have pos := length_head_pos lead rest
    obtain ⟨k, rfl⟩ : ∃ k, m = k + 1 :=
      Nat.exists_eq_add_one_of_ne_zero (by omega)
    obtain ⟨same, -⟩ := head_take lead rest (k := k) (by omega)
    have shorter : (rest.take k).drop ((head lead rest).length - 1)
        = (rest.drop ((head lead rest).length - 1)).take
        (k - ((head lead rest).length - 1)) := List.drop_take
    have inner := ih (m := k - ((head lead rest).length - 1)) (by omega)
    rw [← shorter, ← same] at inner
    rw [List.take_succ_cons, ← same]
    exact .behind inner

/-- At a boundary the text splits. -/
theorem Boundary.decodeLossy_eq {bytes : List UInt8} {n : Nat}
    (h : Boundary bytes n) :
    decodeLossy bytes = decodeLossy (bytes.take n)
      ++ decodeLossy (bytes.drop n) := by
  induction h with
  | front bytes => simp [decodeLossy]
  | @behind lead rest n more ih =>
    have pos := length_head_pos lead rest
    obtain ⟨k, width⟩ : ∃ k, (head lead rest).length = k + 1 :=
      Nat.exists_eq_add_one_of_ne_zero (by omega)
    obtain ⟨same, char⟩ := head_take lead rest (k := k + n) (by omega)
    have front : decodeLossy ((lead :: rest).take (k + 1 + n))
        = (head lead rest).char :: decodeLossy ((rest.drop k).take n) := by
      rw [show k + 1 + n = (k + n) + 1 by omega,
        List.take_succ_cons, decodeLossy]
      simp only [same, char, width, Nat.add_sub_cancel,
        List.drop_take, Nat.add_sub_cancel_left]
    have back : (lead :: rest).drop (k + 1 + n) = (rest.drop k).drop n := by
      rw [show k + 1 + n = (k + n) + 1 by omega,
        List.drop_succ_cons, List.drop_drop]
    rw [width] at ih ⊢
    rw [front, back, decodeLossy]
    simp only [width, Nat.add_sub_cancel] at ih ⊢
    rw [ih, List.cons_append]

/-- There is a boundary between two parts if no head in the first goes on into
the second. -/
theorem boundary_append {front back : List UInt8} (inside : ∀ lead rest, lead ::
      rest <:+ front → (head lead (rest ++ back)).length ≤ rest.length + 1) :
    Boundary (front ++ back) front.length := by
  induction size : front.length using Nat.strongRecOn generalizing front with
  | ind size ih =>
    subst size
    cases front with
    | nil => exact .front _
    | cons lead rest =>
      have pos := length_head_pos lead (rest ++ back)
      have le := inside lead rest List.suffix_rfl
      have shorter : (rest ++ back).drop ((head lead (rest ++ back)).length - 1)
          = rest.drop ((head lead (rest ++ back)).length - 1) ++ back :=
        List.drop_append_of_le_length (by omega)
      have more :
          Boundary (rest.drop ((head lead (rest ++ back)).length - 1) ++ back)
            (rest.drop ((head lead (rest ++ back)).length - 1)).length := by
        refine ih _ ?_ ?_ rfl
        · rw [List.length_drop, List.length_cons]
          omega
        · intro lead' rest' suffix
          exact inside lead' rest'
            (suffix.trans ((List.drop_suffix _ _).trans (List.suffix_cons _ _)))
      have length : (lead :: rest).length
          = (head lead (rest ++ back)).length
          + (rest.drop ((head lead (rest ++ back)).length - 1)).length := by
        rw [List.length_drop, List.length_cons]
        omega
      rw [← shorter] at more
      rw [length, List.cons_append]
      exact .behind (shorter ▸ more)

/-! ## Bytes inside a head -/

/-- The intervals for the bytes behind a lead byte are not empty, and in that of
the continuations. -/
theorem range_of_followers {intervals : List (UInt8 × UInt8)}
    (leads : followers lead = some intervals) :
    ∀ interval ∈ intervals, 0x80 ≤ interval.1 ∧ interval.1 ≤ interval.2 ∧
      interval.2 ≤ 0xBF := by
  simp only [followers] at leads
  repeat' split at leads
  all_goals cases leads
  all_goals simp

/-- Every byte that can follow is a continuation. -/
theorem isContinuation_of_followers {intervals : List (UInt8 × UInt8)}
    (leads : followers lead = some intervals) {interval : UInt8 × UInt8}
    (mem : interval ∈ intervals) {b : UInt8}
    (inside : interval.1 ≤ b ∧ b ≤ interval.2) :
    isContinuation b = true := by
  have range := range_of_followers leads interval mem
  simp only [isContinuation, Bool.and_eq_true,
    decide_eq_true_eq, UInt8.le_iff_toNat_le] at *
  omega

theorem forall_mem_take_fitting {intervals : List (UInt8 × UInt8)}
    {p : UInt8 → Prop}
    (h : ∀ interval ∈ intervals, ∀ b, interval.1 ≤ b ∧ b ≤ interval.2 → p b)
    (bytes : List UInt8) :
    ∀ b ∈ bytes.take (fitting intervals bytes), p b := by
  induction bytes generalizing intervals with
  | nil => simp
  | cons b bytes ih =>
    cases intervals with
    | nil => simp [fitting]
    | cons interval intervals =>
      rw [fitting]
      split
      · next inside =>
        rw [List.take_succ_cons, List.forall_mem_cons]
        exact ⟨h interval List.mem_cons_self b inside,
          ih fun i mem => h i (List.mem_cons_of_mem _ mem)⟩
      · simp

/-- All bytes of a head but the first are continuations. -/
theorem isContinuation_of_mem_head {b : UInt8}
    (mem : b ∈ rest.take ((head lead rest).length - 1)) :
    isContinuation b = true := by
  rw [length_head, Nat.add_sub_cancel] at mem
  cases leads : followers lead with
  | none => simp [leads] at mem
  | some intervals =>
    rw [leads, Option.elim_some] at mem
    exact forall_mem_take_fitting (fun i mem b inside =>
      isContinuation_of_followers leads mem inside) rest b mem

/-! ## Line ends -/

theorem head_newline (rest : List UInt8) : head 10 rest = .scalar '\n' 1 := by
  cases rest <;> simp [head, followers, fitting, codePoint]

/-- A head is a line end if it starts with the byte of one. -/
theorem char_head_eq_newline_iff (lead : UInt8) (rest : List UInt8) :
    (head lead rest).char = '\n' ↔ lead = 10 := by
  constructor
  · intro newline
    cases scalar : head lead rest with
    | scalar c n =>
      rw [scalar] at newline
      have front : charAtFront? (lead :: rest) = some ('\n', n) := by
        rw [charAtFront?, scalar, show c = '\n' from newline]
      obtain ⟨encoding, -⟩ := charAtFront?_eq_some_iff.mp front
      have pos := length_head_pos lead rest
      rw [scalar] at pos
      obtain ⟨k, rfl⟩ : ∃ k, n = k + 1 :=
        Nat.exists_eq_add_one_of_ne_zero (Nat.ne_of_gt pos)
      rw [List.take_succ_cons] at encoding
      exact (List.cons.inj encoding).1
    | broken n => simp [scalar, Head.char] at newline
    | cut n => simp [scalar, Head.char] at newline
  · intro newline
    rw [newline, head_newline]
    rfl

/-- Decoding keeps the line ends. -/
theorem count_newline_decodeLossy (bytes : List UInt8) :
    (decodeLossy bytes).count '\n' = bytes.count 10 := by
  fun_induction decodeLossy bytes with
  | case1 => rfl
  | case2 lead rest first ih =>
    have inner : (rest.take (first.length - 1)).count 10 = 0 := by
      rw [List.count_eq_zero]
      intro mem
      exact absurd (isContinuation_of_mem_head mem) (by decide)
    have whole : rest.count 10 = (rest.drop (first.length - 1)).count 10 := by
      rw [← List.take_append_drop (first.length - 1) rest, List.count_append,
        inner, List.take_append_drop, Nat.zero_add]
    rw [List.count_cons, List.count_cons, ih, whole]
    have same : ((first.char == '\n') = true) ↔ ((lead == 10) = true) := by
      simpa using char_head_eq_newline_iff lead rest
    simp only [same]

end Lexigram.Text
