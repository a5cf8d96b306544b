import Lexigram.Proofs.Pattern.Blocks

/-!
Alternatives with numbers. A choice of groups, each around an expression of its
own, matches at a position what the first of the expressions matches there that
matches anything, and the group around that expression is the only one of the
outer groups that takes part (`Expr.threadAt?_ofParts`).
-/

namespace Lexigram.Pattern

namespace Expr

/-- Alternatives, those in front preferred. -/
def ofChoice : List Expr → Expr
  | [] => empty
  | [e] => e
  | e :: es => choice e (ofChoice es)

/-- An expression in a group with a number, from which its own groups count
on. -/
def numbered (n : Nat) (e : Expr) : Expr :=
  group (some n) (e.shift n)

/-- The thread with which the program of an expression reaches its match from a
position, nothing having been run before. -/
def threadAt? (e : Expr) (text : List UInt8) (offset : Nat) : Option Thread :=
  (run e.program ((Compiled.ofExpr e).budget text.length) .empty
    [Compiled.startAt text offset]).1

theorem runs_threadAt? (e : Expr) {text : List UInt8} {offset : Nat}
    (inside : offset ≤ text.length) :
    ∃ seen, Runs e.program ∅ [Compiled.startAt text offset]
      (e.threadAt? text offset) seen := by
  have := @Compiled.runs_startAt text (.ofExpr e) .empty offset inside
  rw [points_empty] at this
  exact ⟨_, this⟩

theorem code_numbered (base n : Nat) (e : Expr) :
    (e.numbered n).code base =
      .save (2 * n) :: ((e.code 0).map (Instruction.relocate (base + 1) n)
        ++ [.save (2 * n + 1)]) := by
  rw [← e.relocates_code (base + 1) n 0]
  rfl

end Expr

/-- A run ends at a match. -/
theorem Runs.accepts {program : Array Instruction}
    {seen seen' : Set Point} {stack : List Thread} {t : Thread}
    (h : Runs program seen stack (some t) seen') :
    program[t.pc]? = some .accept := by
  generalize found : some t = result at h
  induction h with
  | done => cases found
  | again _ _ ih | out _ _ _ ih | step _ _ _ _ ih => exact ih found
  | accept _ here =>
    cases found
    exact here

/-- Where a run can end that stays in the program of an expression. -/
theorem Expr.pc_of_accept (e : Expr) {pc : Nat}
    (here : e.program[pc]? = some .accept) : pc = (e.code 0).length := by
  by_contra other
  rcases Nat.lt_or_gt_of_ne other with inside | behind
  · rw [e.program_inside inside] at here
    exact e.contained_code 0 _ (List.mem_of_getElem? here)
  · rw [Array.getElem?_eq_none] at here
    · cases here
    · simp only [program, Code.append, Code.single, List.size_toArray,
        List.length_append, List.length_singleton]
      omega

/-- The thread behind the group with a number around what a thread has matched
from a position on. -/
def Thread.leave (t : Thread) (n offset pc : Nat) : Thread :=
  { t with
    pc
    saves := (2 * n + 1, t.offset) ::
      (t.saves.map (fun (slot, at_) => (slot + 2 * n, at_))
        ++ [(2 * n, offset)]) }

/-- The thread behind an instruction that saves its position. -/
def Thread.saved (t : Thread) (slot : Nat) : Thread :=
  { t with pc := t.pc + 1, saves := (slot, t.offset) :: t.saves }

theorem Thread.saved_lift {t : Thread} {base length : Nat}
    (stops : t.pc = length) (n offset : Nat) :
    (t.lift (base + 1) n [(2 * n, offset)]).saved (2 * n + 1)
      = t.leave n offset (base + 1 + length + 1) := by
  simp only [saved, leave, lift, stops]

/-! ## Runs to an address -/

/-- Started before anything from its instruction on has been run, a thread comes
to an address with the outcome: what is behind the address goes on with it or
else with the other threads on the stack, and nothing there has been run yet. -/
def Thread.RunsTo (program : Array Instruction) (t : Thread) (last : Nat)
    (outcome : Option Thread) : Prop :=
  ∀ points : Set Point, (∀ x ∈ points, x.1 < t.pc) → ∀ rest : List Thread,
    ∃ points' rest', (∀ x ∈ points', x.1 < last) ∧
    (outcome = none → rest' = rest) ∧
      ∀ r s, Runs program points' (outcome.toList ++ rest') r s →
      Runs program points (t :: rest) r s

section

variable {program : Array Instruction} {text : List UInt8} {offset : Nat}

namespace Thread.RunsTo

variable {t u : Thread} {i : Instruction} {last last' : Nat}
  {outcome first other : Option Thread}

/-- With an instruction in front. -/
theorem enter (h : u.RunsTo program last outcome)
    (here : program[t.pc]? = some i) (goesOn : i ≠ .accept)
    (step : t.step i = [u]) (next : t.pc < u.pc) :
    t.RunsTo program last outcome := by
  intro points front rest
  obtain ⟨points', rest', front', none, goes⟩ :=
    h (insert t.point points) (Set.forall_mem_insert.mpr
      ⟨next, fun x mem => (front x mem).trans next⟩) rest
  refine ⟨points', rest', front', none, fun r s ran => ?_⟩
  refine .step (fun old => Nat.lt_irrefl _ (front _ old)) here goesOn ?_
  rw [step]
  exact goes r s ran

/-- With an instruction behind. -/
theorem leave (h : t.RunsTo program last outcome) (f : Thread → Thread)
    (here : program[last]? = some i) (goesOn : i ≠ .accept)
    (ends : ∀ u ∈ outcome, u.pc = last ∧ u.step i = [f u])
    (behind : last < last') :
    t.RunsTo program last' (outcome.map f) := by
  intro points front rest
  obtain ⟨points', rest', front', none, goes⟩ := h points front rest
  cases outcome with
  | none =>
    exact ⟨points', rest', fun x mem => (front' x mem).trans behind, none, goes⟩
  | some u =>
    obtain ⟨there, step⟩ := ends u rfl
    refine ⟨insert u.point points', rest', ?_, nofun,
      fun r s ran => goes r s ?_⟩
    · exact Set.forall_mem_insert.mpr
        ⟨there.trans_lt behind, fun x mem => (front' x mem).trans behind⟩
    · refine .step (fun old => (front' _ old).ne there) (there ▸ here) goesOn ?_
      rw [step]
      exact ran

/-- A split goes on at the second place if it comes to nothing from the
first. -/
theorem choose {middle second : Nat}
    (here : program[t.pc]? = some (.split (t.pc + 1) second))
    (h : (t.goto (t.pc + 1)).RunsTo program middle first)
    (h' : (t.goto second).RunsTo program last other) (le : middle ≤ second)
    (le' : middle ≤ last) : t.RunsTo program last (first.or other) := by
  intro points front rest
  obtain ⟨points₁, rest₁, front₁, none₁, goes₁⟩ :=
    h (insert t.point points) (Set.forall_mem_insert.mpr ⟨Nat.lt_succ_self _,
      fun x mem => Nat.lt_succ_of_lt (front x mem)⟩) (t.goto second :: rest)
  have entered {r : Option Thread} {s : Set Point}
      (ran : Runs program (insert t.point points)
        (t.goto (t.pc + 1) :: t.goto second :: rest) r s) :
      Runs program points (t :: rest) r s :=
    .step (fun old => Nat.lt_irrefl _ (front _ old)) here nofun ran
  cases first with
  | none =>
    -- the stack is as it was, with the second place on top
    obtain rfl := none₁ rfl
    obtain ⟨points₂, rest₂, front₂, none₂, goes₂⟩ :=
      h' points₁ (fun x mem => (front₁ x mem).trans_le le) rest
    exact ⟨points₂, rest₂, front₂, none₂,
      fun r s ran => entered (goes₁ r s (goes₂ r s ran))⟩
  | some u =>
    exact ⟨points₁, rest₁, fun x mem => (front₁ x mem).trans_le le', nofun,
      fun r s ran => entered (goes₁ r s ran)⟩

/-- The code of an expression inside a program runs to its end, with what the
expression matches by itself. -/
theorem inside {base groups : Nat} (saves : List (Nat × Nat)) {e : Expr} (code :
      HasCode program base ((e.code 0).map (Instruction.relocate base groups)))
    (inside : offset ≤ text.length) :
    ((Compiled.startAt text offset).lift base groups saves).RunsTo
      program (base + (e.code 0).length)
      ((e.threadAt? text offset).map (lift base groups saves)) := by
  intro points front rest
  obtain ⟨seen, own⟩ := e.runs_threadAt? inside
  have clear : ∀ pc < (e.code 0).length, ∀ o, (base + pc, o) ∈ points ↔
      (pc, o) ∈ (∅ : Set Point) := by
    refine fun pc _ o => iff_of_false (fun old => ?_) (Set.notMem_empty _)
    exact absurd (front _ old) (Nat.not_lt_of_le (Nat.le_add_right base pc))
  obtain ⟨points', rest', outside, none, goes⟩ :=
    Runs.inside saves code own (by simp [Compiled.startAt])
      (by simp) points clear rest
  refine ⟨points', rest', fun x mem => ?_, by simpa using none, goes⟩
  by_contra behind
  have old := (outside x (.inr (Nat.le_of_not_lt behind))).mp mem
  exact behind (Nat.lt_of_lt_of_le (front x old) (Nat.le_add_right _ _))

/-- A group around an expression saves where it starts, runs to the end of the
expression and saves where it stops. -/
theorem numbered {n base : Nat} {e : Expr} (inside : offset ≤ text.length)
    (code : HasCode program base ((e.numbered n).code base)) :
    ((Compiled.startAt text offset).goto base).RunsTo program
      (base + ((e.numbered n).code base).length) ((e.threadAt? text offset).map
        (·.leave n offset (base + ((e.numbered n).code base).length))) := by
  rw [Expr.code_numbered] at code ⊢
  have last := code.tail.right.head
  rw [List.length_map] at last
  have stops : ∀ t ∈ e.threadAt? text offset,
      t.pc = (e.code 0).length := fun t found => by
    obtain ⟨seen, own⟩ := e.runs_threadAt? inside
    exact e.pc_of_accept (found ▸ own).accepts
  have closed := (RunsTo.inside [(2 * n, offset)] code.tail.left inside).leave
    (·.saved (2 * n + 1)) last nofun (fun u found => by
      obtain ⟨t, own, rfl⟩ := Option.map_eq_some_iff.mp found
      exact ⟨congrArg (base + 1 + ·) (stops t own), rfl⟩) (Nat.lt_succ_self _)
  have outcome : (e.threadAt? text offset).map
      (·.leave n offset (base + 1 + (e.code 0).length + 1))
      = ((e.threadAt? text offset).map
        (lift (base + 1) n [(2 * n, offset)])).map (·.saved (2 * n + 1)) := by
    rw [Option.map_map]
    exact Option.map_congr fun t own => (saved_lift (stops t own) n offset).symm
  simp only [List.length_cons, List.length_append,
    List.length_map, List.length_nil]
  rw [show base + ((e.code 0).length + (0 + 1) + 1)
    = base + 1 + (e.code 0).length + 1 by omega, outcome]
  exact closed.enter code.head nofun rfl (Nat.lt_succ_self _)

end Thread.RunsTo

/-- A choice of numbered groups. -/
def Expr.ofParts (parts : List (Nat × Expr)) : Expr :=
  .ofChoice (parts.map fun (n, e) => e.numbered n)

/-- The first expression that has a match at a position, by its number, with the
thread that reaches the match. -/
def Expr.firstThread? (parts : List (Nat × Expr)) (text : List UInt8)
    (offset : Nat) : Option (Nat × Thread) :=
  parts.findSome? fun (n, e) => (e.threadAt? text offset).map (n, ·)

theorem Expr.firstThread?_cons (n : Nat) (e : Expr) (parts : List (Nat × Expr))
    (text : List UInt8) (offset : Nat) :
    firstThread? ((n, e) :: parts) text offset =
      (e.threadAt? text offset).elim (firstThread? parts text offset) fun t =>
        some (n, t) := by
  cases ended : e.threadAt? text offset <;> simp [firstThread?, ended]

/-- A choice of numbered groups runs to its end with what the first expression
matches that has a match. -/
theorem Thread.RunsTo.ofParts {parts : List (Nat × Expr)}
    (some : parts ≠ []) {base : Nat} (inside : offset ≤ text.length)
    (code : HasCode program base ((Expr.ofParts parts).code base)) :
    ((Compiled.startAt text offset).goto base).RunsTo program
      (base + ((Expr.ofParts parts).code base).length)
      ((Expr.firstThread? parts text offset).map fun (n, t) =>
        t.leave n offset (base + ((Expr.ofParts parts).code base).length)) := by
  induction parts generalizing base with
  | nil => exact absurd rfl some
  | cons part others ih =>
    obtain ⟨n, e⟩ := part
    cases others with
    | nil =>
      have own := RunsTo.numbered inside code
      simpa [Expr.firstThread?, Expr.ofParts, Expr.ofChoice,
        Option.map_map, Function.comp_def] using own
    | cons other others =>
      have choice : (Expr.ofParts ((n, e) :: other :: others)).code base =
          .split (base + 1)
          (base + ((e.numbered n).code (base + 1)).length + 2) ::
            ((e.numbered n).code (base + 1) ++
              .jump (base + ((e.numbered n).code (base + 1)).length + 2
                + ((Expr.ofParts (other :: others)).code (base
                    + ((e.numbered n).code (base + 1)).length + 2)).length) ::
              (Expr.ofParts (other :: others)).code
                (base + ((e.numbered n).code (base + 1)).length + 2)) :=
        rfl
      rw [choice] at code ⊢
      generalize behind : base + ((e.numbered n).code (base + 1)).length + 2
        = second at code ⊢
      have jump := code.tail.right.head
      have code' := code.tail.right.tail
      rw [show base + 1 + ((e.numbered n).code (base + 1)).length + 1
        = second by omega] at code'
      have own := (RunsTo.numbered inside code.tail.left).leave (·.goto
        (second + ((Expr.ofParts (other :: others)).code second).length))
        jump nofun (fun u found => by
          obtain ⟨t, -, rfl⟩ := Option.map_eq_some_iff.mp found
          exact ⟨rfl, rfl⟩) (Nat.lt_succ_self _)
      have whole :=
        RunsTo.choose (t := (Compiled.startAt text offset).goto base) code.head
          own (ih (List.cons_ne_nil _ _) code') (by omega) (by omega)
      have last : base + (Instruction.split (base + 1) second ::
          ((e.numbered n).code (base + 1) ++ .jump
            (second + ((Expr.ofParts (other :: others)).code second).length) ::
            (Expr.ofParts (other :: others)).code second)).length
          = second + ((Expr.ofParts (other :: others)).code second).length := by
        simp only [List.length_cons, List.length_append]
        omega
      rw [last, Expr.firstThread?_cons]
      cases ended : e.threadAt? text offset with
      | none =>
        rw [ended] at whole
        exact whole
      | some t =>
        rw [ended] at whole
        exact whole

/-- A choice of numbered groups matches at a position what the first of its
expressions matches there. -/
theorem Expr.threadAt?_ofParts {parts : List (Nat × Expr)} (some : parts ≠ [])
    (inside : offset ≤ text.length) :
    (ofParts parts).threadAt? text offset = (firstThread? parts text offset).map
      fun (n, t) =>
      t.leave n offset ((ofParts parts).code 0).length := by
  have code : HasCode (ofParts parts).program 0 ((ofParts parts).code 0) := by
    intro pc inside
    rw [Nat.zero_add, program_inside _ inside]
  obtain ⟨seen, own⟩ := (ofParts parts).runs_threadAt? inside
  obtain ⟨points, rest, front, none, goes⟩ :=
    Thread.RunsTo.ofParts some inside code ∅
      (fun _ mem => absurd mem (Set.notMem_empty _)) []
  rw [Nat.zero_add] at front goes
  cases found : firstThread? parts text offset with
  | none =>
    rw [found] at none goes
    obtain rfl := none rfl
    exact (own.unique (goes Option.none points .done)).1
  | some first =>
    obtain ⟨n, t⟩ := first
    rw [found] at goes
    exact (own.unique (goes _ points
      (.accept (fun old => Nat.lt_irrefl _ (front _ old)) (program_end _)))).1

end

end Lexigram.Pattern
