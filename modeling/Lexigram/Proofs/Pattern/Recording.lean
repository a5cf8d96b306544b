import Mathlib.Algebra.GroupWithZero.Nat
import Lexigram.Proofs.Pattern.Alternatives
import Lexigram.Proofs.Pattern.Enclosed

/-!
What groups record. The program of an expression saves the bounds of the groups
of the expression and no others, and a reader gives these the indices from one
up to the number of groups it has opened. So a choice of numbered groups records
the group around the alternative that matched and those inside it, and none of
the other alternatives (`savedGroup_leave`, `savedGroup_leave_self`,
`savedGroup_leave_other`).
-/

namespace Lexigram.Pattern

/-! ## The groups of an expression -/

namespace Expr

/-- The indices of the groups that record their match, those that are left out
of the program included. -/
def indices : Expr → List Nat
  | empty | char _ | byte _ | anchor _ => []
  | sequence a b => a.indices ++ b.indices
  | choice a b => a.indices ++ b.indices
  | repetition body _ _ _ => body.indices
  | group index body => index.toList ++ body.indices

theorem indices_shift (k : Nat) (e : Expr) :
    (e.shift k).indices = e.indices.map (· + k) := by
  induction e with
  | empty | char | byte | anchor => rfl
  | sequence a b left right | choice a b left right =>
    simp only [shift, indices, left, right, List.map_append]
  | repetition body least most greedy ih => exact ih
  | group index body ih => cases index <;> simp [shift, indices, ih]

/-- An expression that does not change when its groups are raised has none. -/
theorem indices_of_groupless {e : Expr} (groupless : ∀ k, e.shift k = e) :
    e.indices = [] := by
  have raised := e.indices_shift 1
  rw [groupless] at raised
  cases indices : e.indices with
  | nil => rfl
  | cons n ns =>
    rw [indices] at raised
    simp at raised

theorem indices_ofSequence (es : List Expr) :
    (ofSequence es).indices = es.flatMap indices := by
  induction es with
  | nil => rfl
  | cons e es ih =>
    cases es with
    | nil => simp [ofSequence]
    | cons e' es => rw [List.flatMap_cons, ← ih]; rfl

theorem recorded_shift (k : Nat) (e : Expr) :
    (e.shift k).recorded = e.recorded := by
  induction e with
  | empty | char | byte | anchor => rfl
  | sequence a b left right | choice a b left right =>
    simp only [shift, recorded, left, right]
  | repetition body least most greedy ih => simp only [shift, recorded, ih]
  | group index body ih => cases index <;> simp [shift, recorded, ih]

@[simp] theorem recorded_numbered (n : Nat) (e : Expr) :
    (e.numbered n).recorded = e.recorded + 1 := by
  simp only [numbered, recorded, recorded_shift]

theorem recorded_ofParts (parts : List (Nat × Expr)) :
    (ofParts parts).recorded
      = (parts.map fun (_, e) => e.recorded + 1).sum := by
  induction parts with
  | nil => rfl
  | cons part parts ih =>
    cases parts with
    | nil => simp [ofParts, ofChoice]
    | cons other parts =>
      change (part.2.numbered part.1).recorded
        + (ofParts (other :: parts)).recorded = _
      rw [recorded_numbered, ih]
      rfl

end Expr

/-! ## The groups that a reader opens -/

/-- The indices of the groups that have been read, in the order of the text. -/
def Branches.indices (b : Branches) : List Nat :=
  b.finished.reverse.flatMap Expr.indices
    ++ (b.items.reverse.filterMap id).flatMap Expr.indices

/-- The indices of the groups that have been opened, in the order of the
text. -/
def Progress.indices (p : Progress) : List Nat :=
  p.opened.reverse.flatMap (fun g => g.around.indices ++ g.index.toList)
    ++ p.branches.indices

namespace Branches

@[simp] theorem indices_empty : empty.indices = [] := rfl

theorem indices_sequence (b : Branches) :
    b.sequence.indices = (b.items.reverse.filterMap id).flatMap Expr.indices :=
  Expr.indices_ofSequence _

@[simp] theorem indices_push (b : Branches) (e : Expr) :
    (b.push e).indices = b.indices ++ e.indices := by
  simp [indices, push]

@[simp] theorem indices_next (b : Branches) : b.next.indices = b.indices := by
  simp [indices, next, indices_sequence]

@[simp] theorem indices_close (b : Branches) : b.close.indices = b.indices := by
  rw [indices, close, ← indices_sequence]
  generalize b.sequence = e
  induction b.finished generalizing e with
  | nil => rfl
  | cons e' es ih => rw [List.foldl_cons, ih]; simp [Expr.indices]

end Branches

/-- The groups are numbered in the order in which they are opened. -/
theorem Move.apply_indices {p p' : Progress} {move : Move}
    (h : p.indices = List.range' 1 p.groups) (ok : move.apply p = .ok p') :
    p'.indices = List.range' 1 p'.groups := by
  have captured : p.openCapture.indices = List.range' 1 (p.groups + 1) := by
    rw [List.range'_1_concat, ← h]
    simp [Progress.indices, Progress.openCapture,
      Progress.openGroup, Nat.add_comm]
  have same {q : Progress} (opened : q.opened = p.opened)
      (groups : q.groups = p.groups)
      (branches : q.branches.indices = p.branches.indices) :
      q.indices = List.range' 1 q.groups := by
    rw [Progress.indices, opened, branches, groups, ← h, Progress.indices]
  cases apply_eq_ok_iff.mp ok with
  | @push e groupless =>
    exact same rfl rfl (by
      simp [Progress.push, Expr.indices_of_groupless groupless])
  | next => exact same rfl rfl (Branches.indices_next _)
  | close groups =>
    rw [← h]
    simp [Progress.indices, groups, Expr.indices]
  | capture | named => exact captured
  | openGroup =>
    refine Eq.trans ?_ h
    simp [Progress.indices, Progress.openGroup]
  | setFlags => exact same rfl rfl (by simp [Branches.indices])
  | repeatLast last =>
    exact same rfl rfl (by simp [Branches.indices, last, Expr.indices])

theorem Reads.indices {p q : Progress} {cs : List Char} (h : Reads p cs q)
    (before : p.indices = List.range' 1 p.groups) :
    q.indices = List.range' 1 q.groups := by
  induction h with
  | done => exact before
  | element gap read others ih =>
    obtain ⟨move, made, -⟩ := exists_move read
    exact ih (Move.apply_indices before made)

/-- The groups of a pattern are numbered from one up to the number of groups
that it opens. -/
theorem IsPattern.indices_eq {cs : List Char} {q : Progress}
    (h : IsPattern cs q) :
    q.branches.close.indices = List.range' 1 q.groups := by
  have read := h.reads.indices rfl
  simpa [Progress.indices, h.complete] using read

namespace Expr

/-- How many groups of a pattern record their match, those included that are
repeated no times at all. -/
def declared (e : Expr) : Nat :=
  e.indices.length

theorem recorded_le_declared (e : Expr) : e.recorded ≤ e.declared := by
  unfold declared
  induction e with
  | empty | char | byte | anchor => exact Nat.zero_le _
  | sequence a b left right | choice a b left right =>
    rw [recorded, indices, List.length_append]
    exact Nat.add_le_add left right
  | repetition body least most greedy ih =>
    rw [recorded, indices]
    split
    · exact Nat.zero_le _
    · exact ih
  | group index body ih => cases index <;> simp [recorded, indices, ih]

end Expr

theorem IsPattern.declared_eq {cs : List Char} {q : Progress}
    (h : IsPattern cs q) :
    q.branches.close.declared = q.groups := by
  rw [Expr.declared, h.indices_eq, List.length_range']

/-! ## The slots that a program saves -/

/-- Code that saves the bounds of some groups only. -/
def Code.Saves (groups : Nat → Prop) (c : Code) : Prop :=
  ∀ base slot, .save slot ∈ c base → groups (slot / 2)

namespace Code.Saves

variable {groups : Nat → Prop} {c d : Code}

theorem single {i : Instruction}
    (saved : ∀ slot, i = .save slot → groups (slot / 2)) :
    Saves groups (single i) :=
  fun _ slot mem => saved slot (List.mem_singleton.mp mem).symm

theorem append (h : Saves groups c) (h' : Saves groups d) :
    Saves groups (c.append d) :=
  fun _ slot mem => (List.mem_append.mp mem).elim (h _ slot) (h' _ slot)

theorem choose (h : Saves groups c) (h' : Saves groups d) :
    Saves groups (c.choose d) := by
  intro base slot mem
  simp only [Code.choose, List.cons_append, List.mem_cons, List.mem_append,
    reduceCtorEq, false_or] at mem
  exact mem.elim (h _ slot) (h' _ slot)

theorem save_ne_branch (greedy : Bool) (inside outside slot : Nat) :
    Instruction.save slot ≠ branch greedy inside outside := by
  cases greedy <;> exact Instruction.noConfusion

theorem optional (greedy : Bool) (h : Saves groups c) :
    Saves groups (optional greedy c) := by
  intro base slot mem
  exact h _ slot ((List.mem_cons.mp mem).resolve_left
    (save_ne_branch greedy _ _ slot))

theorem many (greedy : Bool) (h : Saves groups c) :
    Saves groups (many greedy c) := by
  intro base slot mem
  refine h _ slot ((List.mem_append.mp mem).resolve_right fun last => ?_)
  exact save_ne_branch greedy _ _ slot (List.mem_singleton.mp last)

theorem compatible (groups : Nat → Prop) :
    Compatible fun c _ => Saves groups c where
  skip := fun _ _ mem => absurd mem List.not_mem_nil
  append := append
  choose := choose
  optional greedy := optional greedy
  many greedy := many greedy

theorem mono {groups' : Nat → Prop} (h : Saves groups c)
    (more : ∀ n, groups n → groups' n) : Saves groups' c :=
  fun base slot mem => more _ (h base slot mem)

end Code.Saves

/-- The code of an expression saves the bounds of its groups. -/
theorem Expr.saves_code (e : Expr) : Code.Saves (· ∈ e.indices) e.code := by
  induction e with
  | empty => exact fun _ _ mem => absurd mem List.not_mem_nil
  | char | byte | anchor => exact .single nofun
  | sequence a b left right =>
    exact (left.mono fun n => List.mem_append_left b.indices).append
      (right.mono fun n => List.mem_append_right a.indices)
  | choice a b left right =>
    exact (left.mono fun n => List.mem_append_left b.indices).choose
      (right.mono fun n => List.mem_append_right a.indices)
  | repetition body least most greedy ih =>
    exact @Code.Compatible.repetition _ _ body.code
      (Code.Saves.compatible (· ∈ body.indices)) least most greedy ih
  | group index body ih =>
    cases index with
    | none => exact ih
    | some n =>
      have own {slot : Nat} (here : slot / 2 = n) :
          Code.Saves (· ∈ (group (some n) body).indices)
            (.single (.save slot)) := by
        refine .single fun other same => ?_
        cases same
        simp [indices, here]
      exact (own (by omega)).append
        ((ih.mono fun m => List.mem_append_right [n]).append (own (by omega)))

theorem Expr.saves_program {e : Expr} {slot : Nat}
    (mem : .save slot ∈ e.program) : slot / 2 ∈ e.indices := by
  have ends : Code.Saves (· ∈ e.indices) (.single .accept) := .single nofun
  exact e.saves_code.append ends 0 slot (by simpa [program] using mem)

theorem Thread.saves_step {t t' : Thread} {i : Instruction}
    (next : t' ∈ t.step i) :
    ∀ s ∈ t'.saves, s ∈ t.saves ∨ i = .save s.1 := by
  intro s mem
  cases mem_step_iff.mp next with
  | save =>
    rcases List.mem_cons.mp mem with rfl | old
    · exact .inr rfl
    · exact .inl old
  | char | byte | anchor | left | right | jump => exact .inl mem

/-- A run saves what its program saves. -/
theorem Runs.saves {program : Array Instruction}
    {seen seen' : Set Point} {stack : List Thread} {t : Thread}
    (h : Runs program seen stack (some t) seen')
    (before : ∀ u ∈ stack, ∀ s ∈ u.saves, .save s.1 ∈ program) :
    ∀ s ∈ t.saves, .save s.1 ∈ program := by
  generalize found : some t = result at h
  induction h with
  | done => cases found
  | again _ _ ih | out _ _ _ ih =>
    exact ih (fun u mem => before u (.tail _ mem)) found
  | accept =>
    cases found
    exact before t (.head _)
  | @step seen seen' u stack result i fresh here goesOn others ih =>
    refine ih (fun u' mem s saved => ?_) found
    rcases List.mem_append.mp mem with next | behind
    · rcases Thread.saves_step next s saved with old | rfl
      · exact before u (.head _) s old
      · exact Array.mem_of_getElem? here
    · exact before u' (.tail _ behind) s saved

/-- A match from a position saves the bounds of groups of the expression. -/
theorem Expr.saves_of_threadAt? {e : Expr} {text : List UInt8}
    {offset : Nat} {t : Thread} (inside : offset ≤ text.length)
    (found : e.threadAt? text offset = some t) :
    ∀ s ∈ t.saves, .save s.1 ∈ e.program := by
  obtain ⟨seen, ran⟩ := e.runs_threadAt? inside
  rw [found] at ran
  refine ran.saves fun u start s saved => ?_
  cases List.mem_singleton.mp start
  cases saved

/-! ## The matches of a program -/

theorem Instruction.le_widen (n : Nat) (i : Instruction) : n ≤ i.widen n := by
  cases i with
  | save slot => exact Nat.le_max_left _ _
  | _ => exact Nat.le_refl n

theorem le_foldl_widen (is : List Instruction) (n : Nat) :
    n ≤ is.foldl Instruction.widen n := by
  induction is generalizing n with
  | nil => exact Nat.le_refl n
  | cons i is ih => exact (i.le_widen n).trans (ih _)

theorem lt_groupCount {program : Array Instruction} {slot : Nat}
    (mem : .save slot ∈ program) :
    slot / 2 < groupCount program := by
  obtain ⟨is⟩ := program
  simp only [groupCount, List.foldl_toArray, List.mem_toArray] at mem ⊢
  generalize 1 = n
  induction is generalizing n with
  | nil => cases mem
  | cons i is ih =>
    rcases List.mem_cons.mp mem with rfl | behind
    · exact Nat.lt_of_lt_of_le (Nat.le_max_right n (slot / 2 + 1))
        (le_foldl_widen is _)
    · exact ih behind _

theorem savedGroup_eq_none {saves : List (Nat × Nat)} {n : Nat}
    (other : ∀ s ∈ saves, s.1 / 2 ≠ n) :
    savedGroup saves n = none := by
  have absent : saves.lookup (2 * n) = none := by
    refine List.lookup_eq_none_iff.mpr fun s mem => ?_
    have := other s mem
    simp only [bne_iff_ne]
    omega
  simp only [savedGroup, absent]

/-- The groups of a match, from the slots of its thread. -/
theorem group?_matchOf {c : Compiled}
    {t : Thread} (saved : ∀ s ∈ t.saves, .save s.1 ∈ c.program) (offset n : Nat)
    (inner : n ≠ 0) : (c.matchOf offset t).group? n = savedGroup t.saves n := by
  obtain ⟨n, rfl⟩ := Nat.exists_eq_add_one_of_ne_zero inner
  simp only [Match.group?, Compiled.matchOf, List.getD_eq_getElem?_getD,
    List.getElem?_cons_succ, List.getElem?_map]
  by_cases inside : n < groupCount c.program - 1
  · rw [List.getElem?_range inside]
    rfl
  · rw [List.getElem?_eq_none (by rw [List.length_range]; omega)]
    refine (savedGroup_eq_none fun s mem => ?_).symm
    have := lt_groupCount (saved s mem)
    omega

/-! ## Choices of numbered groups -/

theorem lookup_cons_ite (slot slot' at_ : Nat) (saves : List (Nat × Nat)) :
    ((slot', at_) :: saves).lookup slot
      = if slot = slot' then some at_ else saves.lookup slot := by
  rw [List.lookup_cons]
  by_cases here : slot = slot'
  · rw [if_pos here, beq_iff_eq.mpr here]
  · rw [if_neg here, beq_eq_false_iff_ne.mpr here]

theorem lookup_raised (saves : List (Nat × Nat)) (n slot : Nat) :
    (saves.map fun (slot, at_) => (slot + 2 * n, at_)).lookup (slot + 2 * n)
      = saves.lookup slot := by
  induction saves with
  | nil => rfl
  | cons s saves ih =>
    obtain ⟨slot', at_⟩ := s
    simp only [List.map_cons, lookup_cons_ite, ih, Nat.add_right_cancel_iff]

namespace Thread

variable {t : Thread} {n k offset pc : Nat}

/-- The slots of a thread behind a numbered group, counted from the group on. -/
theorem lookup_leave (t : Thread) (n offset pc slot : Nat) :
    (t.leave n offset pc).saves.lookup (slot + 2 * n) =
      if slot = 1 then some t.offset else
      (t.saves.lookup slot).or (if slot = 0 then some offset else none) := by
  simp only [leave, lookup_cons_ite, List.lookup_append,
    lookup_raised, List.lookup_nil]
  congr 1
  · exact propext (by omega)
  · congr 2
    exact propext (by omega)

/-- The numbered group itself takes part. -/
theorem savedGroup_leave_self (inner : ∀ s ∈ t.saves, s.1 / 2 ≠ 0) :
    savedGroup (t.leave n offset pc).saves n = some (offset, t.offset) := by
  have absent : t.saves.lookup 0 = none := by
    refine List.lookup_eq_none_iff.mpr fun s mem => ?_
    have := inner s mem
    simp only [bne_iff_ne]
    omega
  have first := t.lookup_leave n offset pc 0
  have last := t.lookup_leave n offset pc 1
  rw [Nat.zero_add, absent] at first
  rw [Nat.add_comm] at last
  rw [savedGroup, first, last]
  rfl

/-- The groups inside record what they record without the group around. -/
theorem savedGroup_leave (inner : k ≠ 0) :
    savedGroup (t.leave n offset pc).saves (n + k) = savedGroup t.saves k := by
  have first := t.lookup_leave n offset pc (2 * k)
  have last := t.lookup_leave n offset pc (2 * k + 1)
  rw [if_neg (by omega), if_neg (by omega), Option.or_none] at first last
  rw [savedGroup, savedGroup, ← first, ← last, Nat.mul_add,
    Nat.add_comm (2 * n), Nat.add_right_comm]

/-- No group takes part that is neither the numbered group nor inside it. -/
theorem savedGroup_leave_other {groups m : Nat}
    (upper : ∀ s ∈ t.saves, s.1 / 2 ≤ groups) (other : m < n ∨ n + groups < m) :
    savedGroup (t.leave n offset pc).saves m = none := by
  refine savedGroup_eq_none fun s mem => ?_
  simp only [leave, List.mem_cons, List.mem_append, List.mem_map,
    List.not_mem_nil, or_false] at mem
  rcases mem with rfl | ⟨s', mem, rfl⟩ | rfl
  · simp only
    omega
  · have := upper s' mem
    simp only
    omega
  · simp only
    omega

end Thread

end Lexigram.Pattern
