import Lexigram.Proofs.Pattern.Runs

/-!
The leftmost match. A search goes on from one position to the next with the
points that have been run, and so skips what leads to no match (`Barren`). That
changes nothing: a search finds what a run from the first position from which
one succeeds finds, with nothing run before (`Compiled.search?_eq_findSome?`).
-/

namespace Lexigram.Pattern

variable {program : Array Instruction} {text : List UInt8}

theorem Thread.StandsIn.split_eq {t u : Thread}
    {first last : Nat} (h : t.StandsIn text first) (h' : u.StandsIn text last)
    (same : t.offset = u.offset) : t.before = u.before ∧ t.after = u.after := by
  have lengths : t.before.reverse.length = u.before.reverse.length := by
    simp only [List.length_reverse, h.counts, h'.counts, same]
  obtain ⟨before, after⟩ :=
    List.append_inj (h.splits.trans h'.splits.symm) lengths
  exact ⟨List.reverse_injective before, after⟩

/-- Where a thread goes on depends on its point alone. -/
theorem Thread.map_point_step {t u : Thread}
    {first last : Nat} (h : t.StandsIn text first) (h' : u.StandsIn text last)
    (same : t.point = u.point) (i : Instruction) :
    (t.step i).map point = (u.step i).map point := by
  obtain ⟨pc, offset⟩ := Prod.mk.inj same
  obtain ⟨before, after⟩ := h.split_eq h' offset
  cases i with
  | char set =>
    simp only [step, after]
    split
    · split <;> simp [point, take, pc, offset]
    · rfl
  | byte set =>
    simp only [step, after]
    split
    · split <;> simp [point, take, pc, offset]
    · rfl
  | anchor a =>
    simp only [step, before, after]
    split <;> simp [point, goto, pc, offset]
  | save slot => simp [step, point, pc, offset]
  | split first second => simp [step, point, goto, offset]
  | jump target => simp [step, point, goto, offset]
  | accept => rfl

/-- Points from which no match is reached: from there a run goes on to one of
them, to a place without an instruction or to a thread on the stack. -/
def BarrenUpTo (program : Array Instruction) (text : List UInt8)
    (stack : List Thread) (points : Set Point) : Prop :=
  ∀ t : Thread, t.StandsIn text 0 → t.point ∈ points → ∀ i,
    program[t.pc]? = some i →
    i ≠ .accept ∧ ∀ t' ∈ t.step i, t'.point ∈ points ∨ program[t'.pc]? = none
    ∨ ∃ s ∈ stack, s.point = t'.point

/-- Points from which no match is reached. -/
abbrev Barren (program : Array Instruction) (text : List UInt8) :
    Set Point → Prop :=
  BarrenUpTo program text []

theorem Thread.StandsIn.weaken {t : Thread} {first : Nat}
    (h : t.StandsIn text first) : t.StandsIn text 0 :=
  ⟨h.splits, h.counts, Nat.zero_le _⟩

theorem BarrenUpTo.upTo {points : Set Point} (h : Barren program text points)
    (stack : List Thread) :
    BarrenUpTo program text stack points := by
  refine fun t stands mem i here =>
    ⟨(h t stands mem i here).1, fun t' next => ?_⟩
  rcases (h t stands mem i here).2 t' next with old | out | ⟨_, none, _⟩
  · exact .inl old
  · exact .inr (.inl out)
  · cases none

/-- The thread on top of the stack is not needed if it has been run or has no
instruction. -/
theorem BarrenUpTo.drop {points : Set Point} {t : Thread}
    {stack : List Thread} (h : BarrenUpTo program text (t :: stack) points)
    (run : t.point ∈ points ∨ program[t.pc]? = none) :
    BarrenUpTo program text stack points := by
  intro u stands mem i here
  refine ⟨(h u stands mem i here).1, fun u' next => ?_⟩
  rcases (h u stands mem i here).2 u' next with old | out | ⟨s, onStack, same⟩
  · exact .inl old
  · exact .inr (.inl out)
  · rcases List.mem_cons.mp onStack with rfl | behind
    · rcases run with old | out
      · exact .inl (same ▸ old)
      · exact .inr (.inl ((Prod.mk.inj same).1 ▸ out))
    · exact .inr (.inr ⟨s, behind, same⟩)

/-- The thread on top of the stack is run. -/
theorem BarrenUpTo.push {points : Set Point} {t : Thread} {stack : List Thread}
    {i : Instruction} (h : BarrenUpTo program text (t :: stack) points)
    (stands : t.StandsIn text 0) (here : program[t.pc]? = some i)
    (goesOn : i ≠ .accept) :
    BarrenUpTo program text (t.step i ++ stack) (insert t.point points) := by
  intro u stands' mem j there
  by_cases same : u.point = t.point
  · obtain rfl : i = j := by
      rw [(Prod.mk.inj same).1, here] at there
      exact Option.some.inj there
    refine ⟨goesOn, fun u' next => .inr (.inr ?_)⟩
    have mapped := List.mem_map_of_mem (f := Thread.point) next
    rw [Thread.map_point_step stands' stands same i] at mapped
    obtain ⟨t', next', same'⟩ := List.mem_map.mp mapped
    exact ⟨t', List.mem_append_left _ next', same'⟩
  · have old := mem.resolve_left same
    refine ⟨(h u stands' old j there).1, fun u' next => ?_⟩
    rcases (h u stands' old j there).2 u' next with old' | out
      | ⟨s, onStack, equal⟩
    · exact .inl (.inr old')
    · exact .inr (.inl out)
    · rcases List.mem_cons.mp onStack with rfl | behind
      · exact .inl (.inl equal.symm)
      · exact .inr (.inr ⟨s, List.mem_append_right _ behind, equal⟩)

/-- What has been run by a run that fails is barren, and so is where it
started. -/
theorem Runs.barren {seen seen' : Set Point}
    {stack : List Thread} (h : Runs program seen stack none seen')
    (stand : ∀ s ∈ stack, s.StandsIn text 0)
    (before : BarrenUpTo program text stack seen) :
    Barren program text seen' ∧ ∀ s ∈ stack, s.point ∈ seen'
      ∨ program[s.pc]? = none := by
  generalize failed : (none : Option Thread) = result at h
  induction h with
  | done => exact ⟨before, List.forall_mem_nil _⟩
  | again old others ih =>
    obtain ⟨first, behind⟩ := List.forall_mem_cons.mp stand
    obtain ⟨barren, run⟩ := ih behind (before.drop (.inl old)) failed
    exact ⟨barren, List.forall_mem_cons.mpr ⟨.inl (others.subset old), run⟩⟩
  | out fresh here others ih =>
    obtain ⟨first, behind⟩ := List.forall_mem_cons.mp stand
    obtain ⟨barren, run⟩ := ih behind (before.drop (.inr here)) failed
    exact ⟨barren, List.forall_mem_cons.mpr ⟨.inr here, run⟩⟩
  | accept => cases failed
  | @step seen seen' t stack result i fresh here goesOn others ih =>
    obtain ⟨first, behind⟩ := List.forall_mem_cons.mp stand
    have stand' : ∀ s ∈ t.step i ++ stack, s.StandsIn text 0 :=
      List.forall_mem_append.mpr ⟨fun s next => first.step next, behind⟩
    obtain ⟨barren, run⟩ := ih stand' (before.push first here goesOn) failed
    refine ⟨barren, List.forall_mem_cons.mpr
      ⟨.inl (others.subset (Set.mem_insert _ _)), fun s mem => ?_⟩⟩
    exact run s (List.mem_append_right _ mem)

/-- The second stack is the first without some threads that lead to no match. -/
inductive Thins (program : Array Instruction) (points : Set Point) :
    List Thread → List Thread → Prop
  | nil : Thins program points [] []
  | keep (t : Thread) {stack stack' : List Thread}
      (others : Thins program points stack stack') :
      Thins program points (t :: stack) (t :: stack')
  | drop {t : Thread} {stack stack' : List Thread}
      (idle : t.point ∈ points ∨ program[t.pc]? = none)
      (others : Thins program points stack stack') :
      Thins program points (t :: stack) stack'

theorem Thins.append_left {points : Set Point} {stack stack' : List Thread}
    (h : Thins program points stack stack') (front : List Thread) :
    Thins program points (front ++ stack) (front ++ stack') := by
  induction front with
  | nil => exact h
  | cons t front ih => exact .keep t ih

theorem Thins.drop_all {points : Set Point}
    {stack stack' front : List Thread} (h : Thins program points stack stack')
    (idle : ∀ t ∈ front, t.point ∈ points ∨ program[t.pc]? = none) :
    Thins program points (front ++ stack) stack' := by
  induction front with
  | nil => exact h
  | cons t front ih =>
    obtain ⟨first, others⟩ := List.forall_mem_cons.mp idle
    exact .drop first (ih others)

/-- A run ends the same if points from which no match is reached count as
run. -/
theorem Runs.skip {points : Set Point} (barren : Barren program text points)
    {seen seen' : Set Point} {stack stack' : List Thread}
    {result : Option Thread} (h : Runs program seen stack result seen')
    (stand : ∀ s ∈ stack, s.StandsIn text 0)
    (thins : Thins program points stack stack') :
    Runs program (seen ∪ points) stack' result (seen' ∪ points) := by
  induction h generalizing stack' with
  | done =>
    cases thins
    exact .done
  | again old others ih =>
    obtain ⟨first, behind⟩ := List.forall_mem_cons.mp stand
    cases thins with
    | keep _ thins => exact .again (.inl old) (ih behind thins)
    | drop _ thins => exact ih behind thins
  | @out seen seen' t stack result fresh here others ih =>
    obtain ⟨first, behind⟩ := List.forall_mem_cons.mp stand
    cases thins with
    | keep _ thins =>
      by_cases idle : t.point ∈ points
      · exact .again (.inr idle) (ih behind thins)
      · exact .out (fun mem => mem.elim fresh idle) here (ih behind thins)
    | drop _ thins => exact ih behind thins
  | @accept seen t stack fresh here =>
    have alive : t.point ∉ points :=
      fun idle => (barren t (stand t (.head _)) idle _ here).1 rfl
    cases thins with
    | keep => exact .accept (fun mem => mem.elim fresh alive) here
    | drop idle =>
      rcases idle with idle | out
      · exact absurd idle alive
      · cases out.symm.trans here
  | @step seen seen' t stack result i fresh here goesOn others ih =>
    obtain ⟨first, behind⟩ := List.forall_mem_cons.mp stand
    have stand' : ∀ s ∈ t.step i ++ stack, s.StandsIn text 0 :=
      List.forall_mem_append.mpr ⟨fun s next => first.step next, behind⟩
    -- from a barren point the step leads to barren points only, so that all it
    -- adds may be dropped
    by_cases idle : t.point ∈ points
    · have old : insert t.point seen ∪ points = seen ∪ points := by
        rw [Set.insert_union, Set.insert_eq_of_mem (.inr idle)]
      have dropped : ∀ s ∈ t.step i, s.point ∈ points
          ∨ program[s.pc]? = none := by
        intro s next
        rcases (barren t first idle i here).2 s next with old | out
          | ⟨_, none, _⟩
        · exact .inl old
        · exact .inr out
        · cases none
      cases thins with
      | keep _ thins =>
        exact .again (.inr idle) (old ▸ ih stand' (thins.drop_all dropped))
      | drop _ thins => exact old ▸ ih stand' (thins.drop_all dropped)
    · cases thins with
      | keep _ thins =>
        refine .step (fun mem => mem.elim fresh idle) here goesOn ?_
        rw [← Set.insert_union]
        exact ih stand' (thins.append_left _)
      | drop idle' =>
        rcases idle' with idle' | out
        · exact absurd idle' idle
        · cases out.symm.trans here

namespace Compiled

variable (c : Compiled)

/-- The thread that starts at a position of a text. -/
def startAt (text : List UInt8) (offset : Nat) : Thread :=
  ⟨0, (text.take offset).reverse, text.drop offset, offset, []⟩

/-- The match of a thread that started at a position. -/
def matchOf (offset : Nat) (t : Thread) : Match :=
  ⟨some (offset, t.offset) :: (List.range (groupCount c.program - 1)).map
    fun n => savedGroup t.saves (n + 1)⟩

/-- The match that starts at a position, nothing having been run before. -/
def matchAt? (text : List UInt8) (offset : Nat) : Option Match :=
  (run c.program (c.budget text.length) .empty [startAt text offset]).1.map
    (c.matchOf offset)

variable {c}

theorem standsIn_startAt {offset : Nat} (inside : offset ≤ text.length) :
    (startAt text offset).StandsIn text offset where
  splits := by simp [startAt]
  counts := by simp [startAt, inside]
  reaches := Nat.le_refl _

theorem card_left_le (v : Visited) (size length : Nat) :
    (v.left size length).card ≤ size * (length + 1) := by
  refine (Finset.card_filter_le _ _).trans ?_
  rw [Finset.card_product, Finset.card_range, Finset.card_range]

/-- The budget of a search is enough at every position. -/
theorem runs_startAt (v : Visited) {offset : Nat}
    (inside : offset ≤ text.length) :
    Runs c.program v.points [startAt text offset]
      (run c.program (c.budget text.length) v [startAt text offset]).1
      (run c.program (c.budget text.length) v
        [startAt text offset]).2.points := by
  have stand : ∀ s ∈ [startAt text offset], s.StandsIn text offset := by
    simpa using standsIn_startAt inside
  refine runs_run stand ?_
  have := card_left_le v c.program.size text.length
  simp only [budget, List.length_singleton]
  rw [Nat.mul_assoc]
  omega

/-- What has been run is left out at no cost. -/
theorem run_eq_of_barren {v : Visited} (barren : Barren c.program text v.points)
    {offset : Nat} (inside : offset ≤ text.length) :
    (run c.program (c.budget text.length) v [startAt text offset]).1
      = (run c.program (c.budget text.length) .empty
        [startAt text offset]).1 := by
  have stand : ∀ s ∈ [startAt text offset], s.StandsIn text 0 := by
    simpa using (standsIn_startAt inside).weaken
  have fresh :=
    (runs_startAt (c := c) .empty inside).skip barren stand (.keep _ .nil)
  rw [points_empty, Set.empty_union] at fresh
  exact (runs_startAt v inside).unique fresh |>.1

theorem searchFrom_startAt (v : Visited) (offset : Nat) :
    c.searchFrom (c.budget text.length) v (text.take offset).reverse offset
      (text.drop offset)
      = match run c.program (c.budget text.length) v [startAt text offset] with
        | (some t, _) => some (c.matchOf offset t)
        | (none, visited) => match text.drop offset with
          | [] => none
          | b :: after =>
            c.searchFrom (c.budget text.length) visited
                (b :: (text.take offset).reverse) (offset + 1) after :=
  searchFrom.eq_def c (c.budget text.length) v (text.take offset).reverse offset
    (text.drop offset)

/-- One step of a search: the match that starts here, or what is found
behind. -/
theorem searchFrom_step {v : Visited} (barren : Barren c.program text v.points)
    {offset : Nat} (inside : offset ≤ text.length) :
    ∃ v' : Visited,
      (c.matchAt? text offset = none → Barren c.program text v'.points) ∧
      c.searchFrom (c.budget text.length) v (text.take offset).reverse offset
      (text.drop offset)
        = (c.matchAt? text offset).or (match text.drop offset with
          | [] => none
          | b :: after =>
            c.searchFrom (c.budget text.length) v'
                (b :: (text.take offset).reverse) (offset + 1) after) := by
  have same := run_eq_of_barren barren inside
  have runs := runs_startAt (c := c) v inside
  rw [searchFrom_startAt, matchAt?, ← same]
  cases ran : run c.program (c.budget text.length) v [startAt text offset] with
  | mk result v' =>
    rw [ran] at runs
    refine ⟨v', fun none => ?_, ?_⟩
    · obtain rfl := Option.map_eq_none_iff.mp none
      have stand : ∀ s ∈ [startAt text offset], s.StandsIn text 0 := by
        simpa using (standsIn_startAt inside).weaken
      exact (runs.barren stand (barren.upTo _)).1
    · cases result <;> rfl

theorem searchFrom_eq {v : Visited} (barren : Barren c.program text v.points)
    {offset : Nat} (inside : offset ≤ text.length) :
    c.searchFrom (c.budget text.length) v (text.take offset).reverse offset
      (text.drop offset)
      = (List.range' offset (text.length - offset + 1)).findSome?
      (c.matchAt? text) := by
  induction left : text.length - offset generalizing offset v with
  | zero =>
    obtain ⟨v', -, step⟩ := searchFrom_step barren inside
    have ended : text.drop offset = [] := List.drop_eq_nil_of_le (by omega)
    rw [step, ended, List.range'_succ, List.range'_zero, List.findSome?_cons]
    cases c.matchAt? text offset <;> rfl
  | succ left ih =>
    obtain ⟨v', barren', step⟩ := searchFrom_step barren inside
    have inside' : offset < text.length := by omega
    rw [step, List.range'_succ, List.findSome?_cons,
      List.drop_eq_getElem_cons inside']
    cases found : c.matchAt? text offset with
    | some m => rfl
    | none =>
      have next := ih (barren' found) inside' (by omega)
      rw [List.take_add_one, List.getElem?_eq_getElem inside',
        List.reverse_append] at next
      exact next

/-- A search finds the match that starts at the first position at which one
starts. -/
theorem search?_eq_findSome? (c : Compiled) (text : List UInt8) :
    c.search? text = (List.range (text.length + 1)).findSome?
      (c.matchAt? text) := by
  have barren : Barren c.program text Visited.empty.points := by
    intro t _ mem
    simp at mem
  rw [List.range_eq_range']
  exact searchFrom_eq barren (Nat.zero_le _)

theorem search?_eq_none_iff {c : Compiled} {text : List UInt8} :
    c.search? text = none ↔ ∀ offset ≤ text.length,
      c.matchAt? text offset = none := by
  simp only [search?_eq_findSome?, List.findSome?_eq_none_iff,
    List.mem_range, Nat.lt_succ_iff]

/-- The match that a search finds starts at a position, and none starts at a
position in front. -/
theorem exists_matchAt?_of_search? {c : Compiled} {text : List UInt8}
    {m : Match} (found : c.search? text = some m) :
    m.start ≤ text.length ∧ c.matchAt? text m.start = some m ∧
      ∀ offset < m.start, c.matchAt? text offset = none := by
  rw [search?_eq_findSome?] at found
  obtain ⟨front, offset, behind, whole, here, none⟩ :=
    List.findSome?_eq_some_iff.mp found
  have inside {n : Nat} (le : n ≤ front.length) :
      (List.range (text.length + 1))[n]? = some n := by
    have shorter := congrArg List.length whole
    simp only [List.length_range, List.length_append, List.length_cons]
      at shorter
    exact List.getElem?_range (by omega)
  have last := inside (Nat.le_refl _)
  rw [whole, List.getElem?_append_right (Nat.le_refl _), Nat.sub_self] at last
  obtain rfl : offset = front.length := Option.some.inj last
  have start : m.start = front.length := by
    obtain ⟨t, -, rfl⟩ := Option.map_eq_some_iff.mp here
    rfl
  rw [start]
  refine ⟨?_, here, fun n before => none n ?_⟩
  · exact Nat.le_of_lt_succ
      (List.mem_range.mp (List.mem_of_getElem? (inside (Nat.le_refl _))))
  · have listed := inside (Nat.le_of_lt before)
    rw [whole, List.getElem?_append_left before] at listed
    exact List.mem_of_getElem? listed

end Compiled

end Lexigram.Pattern
