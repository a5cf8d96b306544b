import Lexigram.Stream.Lexer

/-!
Lexing on a worker. The worker asks a lexer for one result after the other and
sends each through a bounded queue, up to the last; the consumer takes them out
in order. What the two can do is given as steps: the worker can ask for a
result, and send it while there is room; the consumer can receive while there is
something in the queue or no worker to wait for. `Pipeline.next` lets the worker
go on when the consumer would wait.
-/

namespace Lexigram

/-- What the worker is doing. -/
inductive WorkerState where
  /-- Not started yet. -/
  | idle (lexer : Lexer)
  /-- About to ask for a result. -/
  | lexing (lexer : Lexer)
  /-- Sending a result, for which there has to be room. -/
  | sending (result : LexResult) (lexer : Lexer)
  /-- It sent its last result. -/
  | stopped
  /-- Its thread ended before the last result. -/
  | lost

/-- Whether the worker has not been started. -/
def WorkerState.isIdle : WorkerState → Bool
  | .idle _ => true
  | _ => false

/-- A worker, the queue and its consumer. -/
structure Pipeline where
  worker : WorkerState
  /-- How many results the queue holds at most; one at least. -/
  capacity : Nat
  /-- The results sent and not received. -/
  queue : List LexResult
  /-- The last result, once it was received. -/
  finished : Option LexError
  /-- What the worker has logged, the latest first. -/
  log : List LogRecord

namespace Pipeline

/-- A pipeline that has not been started. -/
def new (lexer : Lexer) (capacity : Nat) : Pipeline :=
  ⟨.idle lexer, max capacity 1, [], none, []⟩

/-- Whether the worker counts as running: from its start until it sent its last
result. One that was lost was never taken off the count. -/
def isRunning (p : Pipeline) : Bool :=
  match p.worker with
  | .idle _ => false
  | .stopped => false
  | _ => true

/-- Starts the worker, and says whether that was still to be done. -/
def start (p : Pipeline) : Pipeline × Bool :=
  match p.worker with
  | .idle lexer => ({ p with worker := .lexing lexer }, true)
  | _ => (p, false)

/-- The consumer asks for a result, which starts the worker if need be. -/
def request (p : Pipeline) : Pipeline :=
  if p.finished.isSome then p else p.start.1

/-- The worker asks the lexer for a result, if it has none to send. It is lost
when the source ends its thread. -/
def lex? (p : Pipeline) : Option Pipeline :=
  match p.worker with
  | .lexing lexer =>
    let turn := lexer.next
    some { p with
      worker := match turn.result with
        | some result => .sending result turn.lexer
        | none => .lost
      log := turn.trace.records.reverse ++ p.log }
  | _ => none

/-- The worker sends its result, if it has one and there is room. It stops after
the last. -/
def send? (p : Pipeline) : Option Pipeline :=
  match p.worker with
  | .sending result lexer =>
    if p.queue.length < p.capacity then
      some { p with
        worker := if result.isLast then .stopped else .lexing lexer
        queue := p.queue ++ [result] }
    else none
  | _ => none

/-- The consumer receives a result, if it does not have to wait. The last result
is received again and again; where no more of them will be sent, the last result
is that the worker was lost. -/
def receive? (p : Pipeline) : Option (Pipeline × LexResult) :=
  match p.finished, p.queue, p.worker with
  | some e, _, _ => some (p, .error e)
  | none, .ok token :: queue, _ => some ({ p with queue }, .ok token)
  | none, .error e :: queue, _ =>
    some ({ p with
      queue
      finished := if e.isRecoverable then none else some e }, .error e)
  | none, [], .stopped =>
    some ({ p with finished := some .workerLost }, .error .workerLost)
  | none, [], .lost =>
    some ({ p with finished := some .workerLost }, .error .workerLost)
  | none, [], _ => none

/-- The worker asks for a result and sends it, as far as it can. -/
def work (p : Pipeline) : Pipeline :=
  let p := p.lex?.getD p
  p.send?.getD p

/-- Receives the next result. The worker is started if need be, and goes on if
there is nothing to receive. -/
def next (p : Pipeline) : Pipeline × LexResult :=
  let p := p.request
  let p := if p.receive?.isSome then p else p.work
  p.receive?.getD (p, .error .workerLost)

/-- The results up to the last, `limit` at most. -/
def results (p : Pipeline) : (limit : Nat) → Pipeline × List LexResult
  | 0 => (p, [])
  | limit + 1 =>
    let (p, result) := p.next
    if result.isLast then (p, [result])
    else
      let (p, others) := p.results limit
      (p, result :: others)

/-- A number of results that reaches the last. -/
def enoughResults (p : Pipeline) : Nat :=
  p.queue.length + 2 + match p.worker with
    | .idle lexer | .lexing lexer => lexer.enoughTurns
    | .sending _ lexer => lexer.enoughTurns + 1
    | .stopped | .lost => 0

/-! ## What a step does -/

variable {p p' : Pipeline}

theorem start_cases (p : Pipeline) :
    (∃ lexer, p.worker = .idle lexer ∧
      p.start = ({ p with worker := .lexing lexer }, true))
      ∨ p.worker.isIdle = false ∧ p.start = (p, false) := by
  cases worker : p.worker with
  | idle lexer => exact .inl ⟨lexer, rfl, by simp only [start, worker]⟩
  | lexing lexer => exact .inr ⟨rfl, by simp only [start, worker]⟩
  | sending r lexer => exact .inr ⟨rfl, by simp only [start, worker]⟩
  | stopped => exact .inr ⟨rfl, by simp only [start, worker]⟩
  | lost => exact .inr ⟨rfl, by simp only [start, worker]⟩

theorem lex?_eq_some :
    p.lex? = some p' ↔ ∃ lexer, p.worker = .lexing lexer
      ∧ p' = { p with
          worker := match lexer.next.result with
            | some result => .sending result lexer.next.lexer
            | none => .lost
          log := lexer.next.trace.records.reverse ++ p.log } := by
  cases worker : p.worker with
  | lexing lexer => simp [lex?, worker, eq_comm]
  | idle lexer => simp [lex?, worker]
  | sending r lexer => simp [lex?, worker]
  | stopped => simp [lex?, worker]
  | lost => simp [lex?, worker]

theorem send?_eq_some :
    p.send? = some p' ↔ ∃ result lexer,
      p.worker = .sending result lexer ∧ p.queue.length < p.capacity
      ∧ p' = { p with
          worker := if result.isLast then .stopped else .lexing lexer
          queue := p.queue ++ [result] } := by
  cases worker : p.worker with
  | sending r lexer =>
    simp only [send?, worker]
    by_cases room : p.queue.length < p.capacity
    · rw [if_pos room]
      constructor
      · intro eq
        exact ⟨r, lexer, rfl, room, (Option.some.inj eq).symm⟩
      · rintro ⟨_, _, eq, -, rfl⟩
        cases eq
        rfl
    · rw [if_neg room]
      constructor
      · nofun
      · rintro ⟨_, _, -, lt, -⟩
        exact absurd lt room
  | idle lexer => simp [send?, worker]
  | lexing lexer => simp [send?, worker]
  | stopped => simp [send?, worker]
  | lost => simp [send?, worker]

theorem receive?_cases {r : LexResult} (received : p.receive? = some (p', r)) :
    (∃ e, p.finished = some e ∧ r = .error e ∧ p' = p)
      ∨ (∃ queue, p.finished = none ∧ p.queue = r :: queue ∧ r.isLast = false
        ∧ p' = { p with queue })
      ∨ (∃ queue e, p.finished = none ∧ p.queue = r :: queue ∧ r = .error e
        ∧ r.isLast = true
          ∧ p' = { p with queue, finished := some e })
      ∨ (p.finished = none ∧ p.queue = []
          ∧ (p.worker = .stopped ∨ p.worker = .lost) ∧ r = .error .workerLost
          ∧ p' = { p with finished := some .workerLost }) := by
  simp only [receive?] at received
  split at received
  · next e finished => cases received; exact .inl ⟨e, finished, rfl, rfl⟩
  · next token queue finished eq =>
      cases received; exact .inr (.inl ⟨queue, finished, eq, rfl, rfl⟩)
  · next e queue finished eq =>
    cases received
    cases recoverable : e.isRecoverable with
    | true =>
      refine .inr (.inl ⟨queue, finished, eq,
        by simp [LexResult.isLast, recoverable], ?_⟩)
      simp [finished]
    | false =>
      refine .inr (.inr (.inl ⟨queue, e, finished, eq, rfl,
        by simp [LexResult.isLast, recoverable], ?_⟩))
      simp
  · next finished eq worker =>
    cases received
    exact .inr (.inr (.inr ⟨finished, eq, .inl worker, rfl, rfl⟩))
  · next finished eq worker =>
    cases received
    exact .inr (.inr (.inr ⟨finished, eq, .inr worker, rfl, rfl⟩))
  · cases received

end Pipeline

end Lexigram
