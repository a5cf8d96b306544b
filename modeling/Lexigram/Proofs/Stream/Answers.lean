import Lexigram.Proofs.Stream.Simulation
import Lexigram.Stream.Worker

/-!
What a lexer and a pipeline are to give to those who go on asking.
`Lexer.answers` says it of a lexer, which repeats its last result;
`Pipeline.due` says what is still to come from a pipeline: from the queue, from
the hands of the worker and from its lexer. Every step of a pipeline leaves that
as it is or takes the first of it.
-/

namespace Lexigram

/-! ## A lexer asked again and again -/

namespace Lexer

variable {l : Lexer}

/-- What `n` requests in a row give. Once the source has ended its thread, the
worker is lost. -/
def answers (l : Lexer) : (n : Nat) → List LexResult
  | 0 => []
  | n + 1 =>
    match l.next.result with
    | some r => r :: l.next.lexer.answers n
    | none => List.replicate (n + 1) (.error .workerLost)

theorem next_of_state_after {e : LexError} (last : e.isRecoverable = false)
    (state : l.state = .after (.error e)) :
    l.next = ⟨l, some (.error e), .empty⟩ := by
  rw [next, state]
  cases e <;> first | rfl | cases last

/-- After its last result a lexer stays as it is and gives that result again. -/
theorem next_next_of_isLast {r : LexResult} (gives : l.next.result = some r)
    (last : r.isLast = true) :
    l.next.lexer.next = ⟨l.next.lexer, some r, .empty⟩ := by
  by_cases awake : l.state.Awake
  · -- the last result has just been found, and is kept in the state
    cases scanned : l.scan.result with
    | none =>
      rw [next_of_awake awake, scanned] at gives
      cases scanned.symm.trans gives
    | some r' =>
      rw [next_of_awake awake, scanned] at gives ⊢
      cases scanned.symm.trans gives
      rcases r with e | token
      · exact next_of_state_after (by simpa [LexResult.isLast] using last) rfl
      · cases last
  · -- it was found before
    obtain ⟨e, stays, -⟩ := next_of_not_awake awake
    rw [stays] at gives ⊢
    cases gives
    exact stays

theorem answers_of_next_eq {r : LexResult}
    (stays : l.next = ⟨l, some r, .empty⟩) (n : Nat) :
    l.answers n = List.replicate n r := by
  induction n with
  | zero => rfl
  | succ n ih => simp only [answers, stays, List.replicate_succ, ih]

theorem results_succ_ne_nil (l : Lexer) (n : Nat) : l.results (n + 1) ≠ [] := by
  simp only [results, turns]
  split <;> simp

/-- The answers are the results up to the last, which is then repeated. If the
source ends its thread, the answer from there on is that the worker is lost. -/
theorem answers_eq_results (l : Lexer) (n : Nat) :
    l.answers n = (l.results n).map (·.getD (.error .workerLost))
      ++ List.replicate (n - (l.results n).length)
        ((l.results n).getLast?.join.getD (.error .workerLost)) := by
  induction n generalizing l with
  | zero => rfl
  | succ n ih =>
    cases given : l.next.result with
    | none => simp [answers, results, turns, given, List.replicate_succ]
    | some r =>
      by_cases last : r.isLast
      · have stays := answers_of_next_eq (next_next_of_isLast given last) n
        simp [answers, results, turns, given, last, stays]
      · have more : l.results (n + 1) = some r :: l.next.lexer.results n := by
          simp [results, turns, given, last]
        cases n with
        | zero => simp [answers, given, results, turns]
        | succ n =>
          rw [more, List.getLast?_cons_of_ne_nil (results_succ_ne_nil _ n)]
          simp only [answers, given, List.map_cons, List.cons_append,
            List.length_cons, Nat.add_sub_add_right, Option.getD_some]
          exact congrArg (r :: ·) (ih l.next.lexer)

end Lexer

/-! ## Results that are due -/

/-- The first `n` results of a list, and then those of `rest`; the last result,
once reached, is repeated. -/
def thenAnswers :
    List LexResult → (rest : Nat → List LexResult) → (n : Nat) → List LexResult
  | [], rest, n => rest n
  | _ :: _, _, 0 => []
  | r :: rs, rest, n + 1 =>
    r :: if r.isLast then List.replicate n r else thenAnswers rs rest n

theorem thenAnswers_append (rs ss : List LexResult)
    (rest : Nat → List LexResult) (n : Nat) :
    thenAnswers (rs ++ ss) rest n = thenAnswers rs (thenAnswers ss rest) n := by
  induction rs generalizing n with
  | nil => rfl
  | cons r rs ih =>
    cases n with
    | zero => rfl
    | succ n => simp only [List.cons_append, thenAnswers, ih]

/-- What follows a last result makes no difference. -/
theorem thenAnswers_of_isLast {r : LexResult} (last : r.isLast = true)
    (rest rest' : Nat → List LexResult) :
    thenAnswers [r] rest = thenAnswers [r] rest' := by
  funext n
  cases n with
  | zero => rfl
  | succ n => simp only [thenAnswers, last, if_true]

theorem Lexer.answers_of_some {l : Lexer} {r : LexResult}
    (gives : l.next.result = some r) :
    l.answers = thenAnswers [r] l.next.lexer.answers := by
  funext n
  cases n with
  | zero => rfl
  | succ n =>
    simp only [answers, gives, thenAnswers]
    split
    · next last => rw [answers_of_next_eq (next_next_of_isLast gives last)]
    · rfl

theorem Lexer.answers_of_none {l : Lexer} (lost : l.next.result = none) :
    l.answers = fun n => List.replicate n (.error .workerLost) := by
  funext n
  cases n with
  | zero => rfl
  | succ n => simp only [answers, lost]

/-- The results that a worker will send. -/
def WorkerState.due : WorkerState → (n : Nat) → List LexResult
  | .idle lexer => lexer.answers
  | .lexing lexer => lexer.answers
  | .sending r lexer => thenAnswers [r] lexer.answers
  | .stopped => fun n => List.replicate n (.error .workerLost)
  | .lost => fun n => List.replicate n (.error .workerLost)

namespace Pipeline

variable {p p' : Pipeline}

/-- The results that the next `n` requests will give. -/
def due (p : Pipeline) (n : Nat) : List LexResult :=
  match p.finished with
  | some e => List.replicate n (.error e)
  | none => thenAnswers p.queue p.worker.due n

theorem due_new (lexer : Lexer) (capacity : Nat) :
    (new lexer capacity).due = lexer.answers :=
  rfl

theorem due_zero (p : Pipeline) : p.due 0 = [] := by
  rw [due]
  cases p.finished with
  | some e => rfl
  | none =>
    cases p.queue with
    | cons r rs => rfl
    | nil => cases p.worker <;> rfl

theorem due_start (p : Pipeline) : p.start.1.due = p.due := by
  obtain ⟨lexer, worker, started⟩ | ⟨-, same⟩ := p.start_cases
  · rw [started]
    funext n
    simp only [due, worker, WorkerState.due]
  · rw [same]

theorem due_request (p : Pipeline) : p.request.due = p.due := by
  rw [request]
  split
  · rfl
  · exact due_start p

/-- A result moves from the lexer to the worker. -/
theorem due_of_lex? (lexed : p.lex? = some p') : p'.due = p.due := by
  obtain ⟨lexer, worker, rfl⟩ := lex?_eq_some.mp lexed
  funext n
  cases result : lexer.next.result with
  | some r =>
    simp only [due, worker, WorkerState.due, Lexer.answers_of_some result]
  | none =>
    simp only [due, worker, WorkerState.due, Lexer.answers_of_none result]

/-- A result moves from the worker to the queue. -/
theorem due_of_send? (sent : p.send? = some p') : p'.due = p.due := by
  obtain ⟨r, lexer, worker, -, rfl⟩ := send?_eq_some.mp sent
  funext n
  simp only [due, thenAnswers_append, worker]
  by_cases last : r.isLast
  · simp only [last, if_true, WorkerState.due,
      thenAnswers_of_isLast last _ lexer.answers]
  · simp only [last, WorkerState.due]
    rfl

/-- The consumer receives the first result that is due. -/
theorem due_of_receive? {r : LexResult} (received : p.receive? = some (p', r))
    (n : Nat) :
    p.due (n + 1) = r :: p'.due n := by
  obtain ⟨e, finished, rfl, rfl⟩ | ⟨queue, finished, eq, more, rfl⟩
    | ⟨queue, e, finished, eq, rfl, last, rfl⟩
        | ⟨finished, eq, worker, rfl, rfl⟩ := receive?_cases received
  · simp only [due, finished, List.replicate_succ]
  · simp only [due, finished, eq, thenAnswers, more]
    rfl
  · simp only [due, finished, eq, thenAnswers, last, if_true]
  · obtain worker | worker := worker <;> simp only [due, finished, eq, worker,
      thenAnswers, WorkerState.due, List.replicate_succ]

end Pipeline

end Lexigram
