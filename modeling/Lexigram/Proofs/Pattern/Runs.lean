import Mathlib.Data.Finset.Prod
import Mathlib.Data.Set.Insert
import Lexigram.Proofs.Pattern.SearchBounds

/-!
Runs without a budget. `Runs program seen stack result seen'` says what a run
ends with, and which points it leaves as run; it has one result at most, and
`run` has it if its budget is large enough (`runs_run`).
-/

namespace Lexigram.Pattern

/-- An instruction at a position. -/
abbrev Point := Nat × Nat

/-- The instruction and the position of a thread. -/
def Thread.point (t : Thread) : Point :=
  (t.pc, t.offset)

/-- The points that have been run. -/
def Visited.points (v : Visited) : Set Point :=
  {x | v.contains x.1 x.2 = true}

@[simp] theorem points_empty : Visited.empty.points = ∅ := by
  ext x
  simp [Visited.points]

@[simp] theorem points_insert (v : Visited) (pc offset : Nat) :
    (v.insert pc offset).points = insert (pc, offset) v.points := by
  ext ⟨pc', offset'⟩
  simp [Visited.points]

/-- A run from a stack of threads, where the points in the first set have been
run, ends with the result and leaves the points in the second set as run. -/
inductive Runs (program : Array Instruction) :
    Set Point → List Thread → Option Thread → Set Point → Prop
  | done {seen : Set Point} : Runs program seen [] none seen
  | again {seen seen' : Set Point} {t : Thread}
      {stack : List Thread} {result : Option Thread} (old : t.point ∈ seen)
      (others : Runs program seen stack result seen') :
      Runs program seen (t :: stack) result seen'
  | out {seen seen' : Set Point} {t : Thread}
      {stack : List Thread} {result : Option Thread}
      (fresh : t.point ∉ seen) (here : program[t.pc]? = none)
      (others : Runs program seen stack result seen') :
      Runs program seen (t :: stack) result seen'
  | accept {seen : Set Point} {t : Thread} {stack : List Thread}
      (fresh : t.point ∉ seen) (here : program[t.pc]? = some .accept) :
      Runs program seen (t :: stack) (some t) seen
  | step {seen seen' : Set Point} {t : Thread} {stack : List Thread}
      {result : Option Thread} {i : Instruction} (fresh : t.point ∉ seen)
      (here : program[t.pc]? = some i) (goesOn : i ≠ .accept) (others : Runs
        program (insert t.point seen) (t.step i ++ stack) result seen') :
      Runs program seen (t :: stack) result seen'

namespace Runs

variable {program : Array Instruction} {seen seen' seen'' : Set Point}
  {stack : List Thread} {result result' : Option Thread}

/-- There is one way to run. -/
theorem unique (h : Runs program seen stack result seen')
    (h' : Runs program seen stack result' seen'') :
    result = result' ∧ seen' = seen'' := by
  induction h with
  | done =>
    cases h'
    exact ⟨rfl, rfl⟩
  | again old others ih =>
    cases h' with
    | again _ others' => exact ih others'
    | out fresh | accept fresh | step fresh => exact absurd old fresh
  | out fresh here others ih =>
    cases h' with
    | again old => exact absurd old fresh
    | out _ _ others' => exact ih others'
    | accept _ here' | step _ here' => cases here.symm.trans here'
  | accept fresh here =>
    cases h' with
    | again old => exact absurd old fresh
    | out _ here' => cases here.symm.trans here'
    | accept => exact ⟨rfl, rfl⟩
    | step _ here' goesOn =>
      exact absurd (Option.some.inj (here.symm.trans here')).symm goesOn
  | step fresh here goesOn others ih =>
    cases h' with
    | again old => exact absurd old fresh
    | out _ here' => cases here.symm.trans here'
    | accept _ here' =>
      exact absurd (Option.some.inj (here.symm.trans here')) goesOn
    | step _ here' _ others' =>
      cases here.symm.trans here'
      exact ih others'

/-- Points that have been run stay so. -/
theorem subset (h : Runs program seen stack result seen') : seen ⊆ seen' := by
  induction h with
  | done | accept => exact subset_rfl
  | again _ _ ih | out _ _ _ ih => exact ih
  | step _ _ _ _ ih => exact (Set.subset_insert _ _).trans ih

end Runs

/-! ## Enough budget -/

/-- The points of a text that have not been run. -/
def Visited.left (v : Visited) (size length : Nat) : Finset Point :=
  (Finset.range size ×ˢ Finset.range (length + 1)).filter fun x =>
    v.contains x.1 x.2 = false

theorem Visited.card_left_insert {v : Visited} {size length : Nat}
    {pc offset : Nat} (inside : pc < size) (reached : offset ≤ length)
    (fresh : v.contains pc offset = false) :
    ((v.insert pc offset).left size length).card
      < (v.left size length).card := by
  refine Finset.card_lt_card ⟨fun x mem => ?_, fun all => ?_⟩
  · simp only [left, Finset.mem_filter, contains_insert, Bool.or_eq_false_iff]
      at mem ⊢
    exact ⟨mem.1, mem.2.2⟩
  · have mem : (pc, offset) ∈ v.left size length := by
      simp [left, inside, fresh, Nat.lt_succ_of_le reached]
    simpa [left] using all mem

theorem Thread.length_step_le (t : Thread) (i : Instruction) :
    (t.step i).length ≤ 2 := by
  cases i <;> simp only [step] <;> (try split) <;> (try split) <;> simp

/-- With enough budget a run is a run. -/
theorem runs_run {program : Array Instruction}
    {budget : Nat} {v : Visited} {stack : List Thread} {text : List UInt8}
    {first : Nat} (stand : ∀ s ∈ stack, s.StandsIn text first) (enough : 2
      * (v.left program.size text.length).card + stack.length < budget) :
    Runs program v.points stack (run program budget v stack).1
      (run program budget v stack).2.points := by
  induction budget generalizing v stack with
  | zero => exact absurd enough (Nat.not_lt_zero _)
  | succ budget ih =>
    cases stack with
    | nil => exact .done
    | cons t stack =>
      have others : ∀ s ∈ stack, s.StandsIn text first :=
        fun s mem => stand s (.tail _ mem)
      rw [List.length_cons] at enough
      simp only [run]
      split
      · next old => exact .again old (ih others (by omega))
      · next fresh =>
        have fresh' : t.point ∉ v.points := fresh
        split
        · next here => exact .out fresh' here (ih others (by omega))
        · next here => exact .accept fresh' here
        · next i goesOn here =>
          refine .step fresh' here (fun same => goesOn (by rw [← same])) ?_
          have inside : t.pc < program.size :=
            (Array.getElem?_eq_some_iff.mp here).1
          have fewer := Visited.card_left_insert inside
            (stand t (.head _)).offset_le (Bool.not_eq_true _ ▸ fresh)
          have pushed := t.length_step_le i
          rw [Thread.point, ← points_insert]
          refine ih (fun s mem => ?_) (by rw [List.length_append]; omega)
          rcases List.mem_append.mp mem with mem | mem
          · exact (stand t (.head _)).step mem
          · exact others s mem

end Lexigram.Pattern
