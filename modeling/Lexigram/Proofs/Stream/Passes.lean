import Lexigram.Proofs.Stream.Conservation

/-!
A scan as a loop. `Lexer.pass` is one pass through it, and a scan is one pass
after the other. Every pass that is not the last reads on or passes over white
space, either of which takes from the weight of the lexer; so no scan makes more
passes than that.
-/

namespace Lexigram

/-- A turn, with what could be seen before it. -/
def Turn.behind (trace : Trace) (turn : Turn) : Turn :=
  { turn with trace := trace.append turn.trace }

theorem Turn.behind_behind (first second : Trace) (turn : Turn) :
    (turn.behind second).behind first = turn.behind (first.append second) := by
  simp [Turn.behind, Trace.append]

/-- What one pass through the loop of a scan comes to. -/
inductive Pass where
  /-- The scan goes on. -/
  | more (lexer : Lexer) (trace : Trace)
  | done (turn : Turn)

namespace Lexer

variable {l l' : Lexer} {trace : Trace} {turn : Turn}

/-- Fills the window, which ends the scan unless bytes or the end of the stream
are read. -/
def refill (l : Lexer) : Pass :=
  let f := l.window.fill l.source
  match f.outcome with
  | .read _ => .more (l.filled f) (fillTrace f)
  | .failure failure =>
    .done ⟨l.filled f, some (.error (.readFailed failure)), fillTrace f⟩
  | .death => .done ⟨l.filled f, none, fillTrace f⟩

/-- One pass through the loop of a scan. -/
def pass (l : Lexer) : Pass :=
  if l.window.isEmpty then
    if l.window.exhausted then .done ⟨l, some (.error .endOfStream), .empty⟩
    else l.refill
  else
    match l.step with
    | .refill => l.refill
    | .skip length => .more (l.consume length) .empty
    | .finish length result =>
      .done ⟨l.consume length, some result,
        ⟨[], l.stepRecords (.finish length result)⟩⟩

/-- The turn of a scan, if it takes no more than so many passes. -/
def scanWithin (l : Lexer) : (passes : Nat) → Option Turn
  | 0 => none
  | passes + 1 =>
    match l.pass with
    | .more l' trace => (l'.scanWithin passes).map (Turn.behind trace)
    | .done turn => some turn

theorem scanFilled_eq (l : Lexer) :
    l.scanFilled = match l.refill with
      | .more l' trace => l'.scan.behind trace
      | .done turn => turn := by
  rw [scanFilled, refill]
  split <;> simp_all [Turn.behind]

/-- A scan makes one pass after the other. -/
theorem scan_eq_pass (l : Lexer) :
    l.scan = match l.pass with
      | .more l' trace => l'.scan.behind trace
      | .done turn => turn := by
  rw [scan_eq, pass]
  cases l.window.isEmpty with
  | false =>
    rw [if_pos rfl, if_neg Bool.false_ne_true]
    cases l.step with
    | refill => exact l.scanFilled_eq
    | skip length => rfl
    | finish length result => rfl
  | true =>
    rw [if_neg (by decide), if_pos rfl]
    cases l.window.exhausted with
    | false =>
      rw [if_pos rfl, if_neg Bool.false_ne_true]
      exact l.scanFilled_eq
    | true => rw [if_neg (by decide), if_pos rfl]

/-- A pass fills the window, or consumes bytes at the front, or finds the end of
the stream. -/
theorem pass_cases (l : Lexer) :
    (l.Refills ∧ l.pass = l.refill)
      ∨ (∃ length, l.window.isEmpty = false ∧ l.step = .skip length
        ∧ l.pass = .more (l.consume length) .empty)
      ∨ (∃ length result, l.window.isEmpty = false
        ∧ l.step = .finish length result
        ∧ l.pass = .done ⟨l.consume length, some result,
          ⟨[], l.stepRecords (.finish length result)⟩⟩)
      ∨ (l.window.isEmpty = true ∧ l.window.exhausted = true
        ∧ l.pass = .done ⟨l, some (.error .endOfStream), .empty⟩) := by
  rw [pass]
  cases empty : l.window.isEmpty with
  | true =>
    rw [if_pos rfl]
    cases exhausted : l.window.exhausted with
    | true => exact .inr (.inr (.inr ⟨rfl, rfl, rfl⟩))
    | false => exact .inl ⟨⟨exhausted, .inl empty⟩, rfl⟩
  | false =>
    rw [if_neg Bool.false_ne_true]
    cases step : l.step with
    | refill => exact .inl ⟨⟨exhausted_of_step_eq_refill step, .inr step⟩, rfl⟩
    | skip length => exact .inr (.inl ⟨length, rfl, rfl, rfl⟩)
    | finish length result =>
      exact .inr (.inr (.inl ⟨length, result, rfl, rfl, rfl⟩))

theorem pass_of_refills (h : l.Refills) : l.pass = l.refill := by
  rw [pass]
  obtain empty | step := h.2
  · rw [if_pos empty, h.1, if_neg Bool.false_ne_true]
  · rw [step, h.1]
    split <;> rfl

/-- A scan that starts with a read goes on with what was read. -/
theorem scan_of_refills (h : l.Refills) :
    l.scan = match l.refill with
      | .more l' trace => l'.scan.behind trace
      | .done turn => turn := by
  rw [scan_eq_pass, pass_of_refills h]

theorem refill_eq_more (h : l.refill = .more l' trace) :
    (∃ count, (l.window.fill l.source).outcome = .read count)
      ∧ l' = l.filled (l.window.fill l.source)
      ∧ trace = fillTrace (l.window.fill l.source) := by
  rw [refill] at h
  cases outcome : (l.window.fill l.source).outcome with
  | read count => rw [outcome] at h; cases h; exact ⟨⟨count, rfl⟩, rfl, rfl⟩
  | failure f => rw [outcome] at h; cases h
  | death => rw [outcome] at h; cases h

theorem refill_eq_done (h : l.refill = .done turn) :
    turn.lexer = l.filled (l.window.fill l.source)
      ∧ turn.trace = fillTrace (l.window.fill l.source)
      ∧ (turn.result = none → (l.window.fill l.source).outcome = .death) := by
  rw [refill] at h
  cases outcome : (l.window.fill l.source).outcome with
  | read count => rw [outcome] at h; cases h
  | failure f =>
    rw [outcome] at h
    cases h
    exact ⟨rfl, rfl, fun noResult => by cases noResult⟩
  | death => rw [outcome] at h; cases h; exact ⟨rfl, rfl, fun _ => rfl⟩

/-- A pass that is not the last reads on, or passes over white space. -/
theorem pass_eq_more (h : l.pass = .more l' trace) :
    (l.window.exhausted = false
        ∧ (∃ count, (l.window.fill l.source).outcome = .read count)
        ∧ l' = l.filled (l.window.fill l.source)
        ∧ trace = fillTrace (l.window.fill l.source))
      ∨ ∃ length, l.window.isEmpty = false ∧ l.step = .skip length
        ∧ l' = l.consume length
        ∧ trace = .empty := by
  obtain ⟨refills, pass⟩ | ⟨length, nonempty, step, pass⟩ | ⟨_, _, -, -, pass⟩
    | ⟨-, -, pass⟩ := l.pass_cases
  · exact .inl ⟨refills.1, refill_eq_more (pass.symm.trans h)⟩
  · cases pass.symm.trans h
    exact .inr ⟨length, nonempty, step, rfl, rfl⟩
  · cases pass.symm.trans h
  · cases pass.symm.trans h

/-- The last pass fails to read, gives a result for bytes at the front, or finds
the end of the stream. -/
theorem pass_eq_done (h : l.pass = .done turn) :
    (l.window.exhausted = false ∧ turn.lexer = l.filled (l.window.fill l.source)
        ∧ turn.trace = fillTrace (l.window.fill l.source)
        ∧ (turn.result = none → (l.window.fill l.source).outcome = .death))
      ∨ (∃ length result, l.window.isEmpty = false
        ∧ l.step = .finish length result
        ∧ turn = ⟨l.consume length, some result,
          ⟨[], l.stepRecords (.finish length result)⟩⟩)
      ∨ turn = ⟨l, some (.error .endOfStream), .empty⟩ := by
  obtain ⟨refills, pass⟩ | ⟨_, -, -, pass⟩
    | ⟨length, result, nonempty, step, pass⟩ | ⟨-, -, pass⟩ := l.pass_cases
  · exact .inl ⟨refills.1, refill_eq_done (pass.symm.trans h)⟩
  · cases pass.symm.trans h
  · cases pass.symm.trans h
    exact .inr (.inl ⟨length, result, nonempty, step, rfl⟩)
  · cases pass.symm.trans h
    exact .inr (.inr rfl)

/-- Every pass that is not the last takes from the weight. -/
theorem weight_lt_of_pass (h : l.pass = .more l' trace) :
    l'.weight < l.weight := by
  obtain ⟨going, ⟨count, outcome⟩, rfl, -⟩ | ⟨length, nonempty, step, rfl, -⟩ :=
    pass_eq_more h
  · exact weight_filled_lt going outcome
  · exact weight_consume_lt nonempty (pos_of_step_eq_skip step)

/-- A scan ends before it has made more passes than its lexer weighs, and
one. -/
theorem scanWithin_of_weight_lt {passes : Nat} (h : l.weight < passes) :
    l.scanWithin passes = some l.scan := by
  induction passes generalizing l with
  | zero => exact absurd h (Nat.not_lt_zero _)
  | succ passes ih =>
    rw [scan_eq_pass, scanWithin]
    cases pass : l.pass with
    | more l' trace =>
      have lt := weight_lt_of_pass pass
      show (l'.scanWithin passes).map _ = some (l'.scan.behind trace)
      rw [ih (by omega)]
      rfl
    | done turn => rfl

/-- Induction along the passes of a scan. -/
theorem pass_induction {motive : Lexer → Turn → Prop}
    (more : ∀ l l' trace, l.pass = .more l' trace →
      motive l' l'.scan → motive l (l'.scan.behind trace))
    (done : ∀ l turn, l.pass = .done turn → motive l turn) (l : Lexer) :
    motive l l.scan := by
  induction same : l.weight using Nat.strongRecOn generalizing l with
  | ind weight ih =>
    rw [scan_eq_pass]
    cases pass : l.pass with
    | more l' trace =>
      have lt := weight_lt_of_pass pass
      exact more l l' trace pass (ih _ (same ▸ lt) l' rfl)
    | done turn => exact done l turn pass

end Lexer

end Lexigram
