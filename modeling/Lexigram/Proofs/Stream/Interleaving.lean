import Lexigram.Proofs.Stream.Answers
import Lexigram.Proofs.Stream.Refinement

/-!
All the ways in which a worker and its consumer can take turns. Whatever the
order of their steps, the consumer receives what the lexer alone would have
given, and it does not wait for ever.
-/

namespace Lexigram

open Pattern (CharSet Match)

/-- A pipeline in use. -/
structure Session where
  pipeline : Pipeline
  /-- Whether the consumer has asked for a result that it has not received. -/
  waiting : Bool

/-- What can happen in a session. -/
inductive Event where
  /-- The consumer starts the worker, or is told that it has been started. -/
  | started (first : Bool)
  /-- The consumer asks for a result. -/
  | requested
  /-- The consumer gets the result it asked for. -/
  | received (result : LexResult)
  /-- The worker asks its lexer for a result. -/
  | lexed
  /-- The worker sends its result. -/
  | sent

namespace Event

/-- The result that the consumer gets. -/
def result? : Event → Option LexResult
  | received r => some r
  | _ => none

/-- Whether the consumer is told that it has started the worker. -/
def isFirstStart : Event → Bool
  | started first => first
  | _ => false

/-- Whether the worker does something. -/
def isWork : Event → Bool
  | lexed => true
  | sent => true
  | _ => false

end Event

/-- The results that the consumer gets, in order. -/
def received (events : List Event) : List LexResult :=
  events.filterMap Event.result?

theorem received_append (events others : List Event) :
    received (events ++ others) = received events ++ received others :=
  List.filterMap_append

/-- The consumer gets nothing while the worker works. -/
theorem received_of_isWork {work : List Event}
    (turns : work.all Event.isWork = true) :
    received work = [] := by
  rw [received, List.filterMap_eq_nil_iff]
  intro event mem
  have works := List.all_eq_true.mp turns event mem
  cases event <;> first | rfl | cases works

namespace Session

/-- A session that has not begun. -/
def new (lexer : Lexer) (capacity : Nat) : Session :=
  ⟨.new lexer capacity, false⟩

/-- What can happen next. While it waits the consumer does nothing else; the
worker goes on at any time. -/
inductive Step : Session → Event → Session → Prop where
  | start {p p' : Pipeline} {first : Bool} :
      p.start = (p', first) → Step ⟨p, false⟩ (.started first) ⟨p', false⟩
  | request {p : Pipeline} : Step ⟨p, false⟩ .requested ⟨p.request, true⟩
  | receive {p p' : Pipeline} {r : LexResult} :
      p.receive? = some (p', r) → Step ⟨p, true⟩ (.received r) ⟨p', false⟩
  | lex {p p' : Pipeline} {waiting : Bool} :
      p.lex? = some p' → Step ⟨p, waiting⟩ .lexed ⟨p', waiting⟩
  | send {p p' : Pipeline} {waiting : Bool} :
      p.send? = some p' → Step ⟨p, waiting⟩ .sent ⟨p', waiting⟩

/-- What can happen one after the other. -/
inductive Run : Session → List Event → Session → Prop where
  | nil (s : Session) : Run s [] s
  | cons {s s' s'' : Session} {event : Event} {events : List Event} :
      Step s event s' → Run s' events s'' → Run s (event :: events) s''

theorem Run.append {s s' s'' : Session} {events others : List Event}
    (run : Run s events s') (later : Run s' others s'') :
    Run s (events ++ others) s'' := by
  induction run with
  | nil => exact later
  | cons step _ ih => exact .cons step (ih later)

/-- A step leaves what is due as it is, or is the receipt of the first of it. -/
theorem Step.due {s s' : Session} {event : Event} (step : Step s event s')
    (n : Nat) :
    s.pipeline.due (event.result?.toList.length + n)
      = event.result?.toList ++ s'.pipeline.due n := by
  cases step with
  | @start p p' first started =>
    have same := p.due_start
    rw [started] at same
    simp [Event.result?, same]
  | request => simp [Event.result?, Pipeline.due_request]
  | receive got =>
    simpa [Event.result?, Nat.add_comm] using Pipeline.due_of_receive? got n
  | lex lexed => simp [Event.result?, Pipeline.due_of_lex? lexed]
  | send sent => simp [Event.result?, Pipeline.due_of_send? sent]

/-- What is received in a run is the first of what was due. -/
theorem Run.due {s s' : Session} {events : List Event} (run : Run s events s')
    (n : Nat) :
    s.pipeline.due ((received events).length + n)
      = received events ++ s'.pipeline.due n := by
  induction run with
  | nil s => simp [received]
  | @cons s s' s'' event events step _ ih =>
    have split : received (event :: events)
        = event.result?.toList ++ received events := by
      cases result : event.result? <;> simp [received, result]
    rw [split, List.length_append, Nat.add_assoc, step.due,
      ih, List.append_assoc]

/-- A start is the first only if the worker is idle, and no step makes it idle
again. -/
theorem Step.isIdle {s s' : Session} {event : Event} (step : Step s event s') :
    event.isFirstStart.toNat + s'.pipeline.worker.isIdle.toNat
      ≤ s.pipeline.worker.isIdle.toNat := by
  cases step with
  | @start p p' first started =>
    obtain ⟨lexer, worker, eq⟩ | ⟨-, eq⟩ := p.start_cases
    · cases eq.symm.trans started
      simp [Event.isFirstStart, WorkerState.isIdle, worker]
    · cases eq.symm.trans started
      simp [Event.isFirstStart]
  | @request p =>
    simp only [Pipeline.request, Event.isFirstStart]
    split
    · simp
    · obtain ⟨lexer, worker, eq⟩ | ⟨-, eq⟩ :=
        p.start_cases <;> simp [eq, WorkerState.isIdle]
  | receive got =>
    obtain ⟨_, _, _, rfl⟩ | ⟨_, _, _, _, rfl⟩ | ⟨_, _, _, _, _, _, rfl⟩
        | ⟨_, _, _, _, rfl⟩ :=
      Pipeline.receive?_cases got <;> simp [Event.isFirstStart]
  | lex lexed =>
    obtain ⟨lexer, worker, rfl⟩ := Pipeline.lex?_eq_some.mp lexed
    cases result : lexer.next.result
      <;> simp [Event.isFirstStart, WorkerState.isIdle]
  | send sent =>
    obtain ⟨r, lexer, worker, -, rfl⟩ := Pipeline.send?_eq_some.mp sent
    cases last : r.isLast <;> simp [Event.isFirstStart, WorkerState.isIdle]

/-- The consumer is told once that it has started the worker, if the worker was
idle, and else never. -/
theorem Run.countP_isFirstStart_le {s s' : Session} {events : List Event}
    (run : Run s events s') :
    events.countP Event.isFirstStart ≤ s.pipeline.worker.isIdle.toNat := by
  induction run with
  | nil => exact Nat.zero_le _
  | @cons s s' s'' event events step _ ih =>
    have bound := step.isIdle
    rw [List.countP_cons]
    cases first : event.isFirstStart <;> rw [first] at bound <;> simp at bound ⊢
      <;> omega

/-- What holds between the steps of a session: the queue has room for a result
and holds no more than it has room for, and the worker of a consumer that waits
for a result has been started. -/
structure Sound (s : Session) : Prop where
  room : 0 < s.pipeline.capacity
  bounded : s.pipeline.queue.length ≤ s.pipeline.capacity
  started : s.waiting = true → s.pipeline.finished = none →
    s.pipeline.worker.isIdle = false

theorem Sound.of_not_waiting {p : Pipeline} (room : 0 < p.capacity)
    (bounded : p.queue.length ≤ p.capacity) :
    Sound ⟨p, false⟩ :=
  ⟨room, bounded, fun waiting => absurd waiting Bool.false_ne_true⟩

theorem sound_new (lexer : Lexer) (capacity : Nat) :
    (new lexer capacity).Sound :=
  .of_not_waiting (Nat.lt_of_lt_of_le Nat.one_pos (Nat.le_max_right _ _))
    (Nat.zero_le _)

theorem Step.sound {s s' : Session} {event : Event} (step : Step s event s')
    (sound : s.Sound) : s'.Sound := by
  obtain ⟨room, bounded, started⟩ := sound
  cases step with
  | @start p p' first eq =>
    obtain ⟨lexer, worker, same⟩ | ⟨-, same⟩ := p.start_cases
      <;> cases same.symm.trans eq <;> exact .of_not_waiting room bounded
  | @request p =>
    rw [Pipeline.request]
    split
    · next finished =>
      refine ⟨room, bounded, fun _ unfinished => ?_⟩
      rw [show p.finished = none from unfinished] at finished
      cases finished
    · obtain ⟨lexer, worker, eq⟩ | ⟨busy, eq⟩ := p.start_cases <;> rw [eq]
      · exact ⟨room, bounded, fun _ _ => rfl⟩
      · exact ⟨room, bounded, fun _ _ => busy⟩
  | @receive p p' r got =>
    obtain ⟨_, _, _, rfl⟩ | ⟨_, _, eq, _, rfl⟩ | ⟨_, _, _, eq, _, _, rfl⟩
        | ⟨_, _, _, _, rfl⟩ :=
      Pipeline.receive?_cases got
    · exact .of_not_waiting room bounded
    · rw [eq] at bounded
      exact .of_not_waiting room (Nat.le_of_succ_le bounded)
    · rw [eq] at bounded
      exact .of_not_waiting room (Nat.le_of_succ_le bounded)
    · exact .of_not_waiting room bounded
  | lex lexed =>
    obtain ⟨lexer, worker, rfl⟩ := Pipeline.lex?_eq_some.mp lexed
    refine ⟨room, bounded, fun _ _ => ?_⟩
    cases result : lexer.next.result <;> rfl
  | send sent =>
    obtain ⟨r, lexer, worker, space, rfl⟩ := Pipeline.send?_eq_some.mp sent
    refine ⟨room, ?_, fun _ _ => ?_⟩
    · rw [List.length_append]
      exact space
    · cases last : r.isLast <;> rfl

theorem Run.sound {s s' : Session} {events : List Event} (run : Run s events s')
    (sound : s.Sound) :
    s'.Sound := by
  induction run with
  | nil => exact sound
  | cons step _ ih => exact ih (step.sound sound)

/-- With an empty queue a worker sends its result at once, and the consumer can
receive it. -/
theorem exists_sent {capacity : Nat} (room : 0 < capacity) (r : LexResult)
    (lexer : Lexer) (log : List LogRecord) :
    ∃ p, Pipeline.send? ⟨.sending r lexer, capacity, [], none, log⟩ = some p
      ∧ p.receive?.isSome = true := by
  refine ⟨⟨if r.isLast then .stopped else .lexing lexer, capacity, [r],
    none, log⟩, ?_, ?_⟩
  · simp only [Pipeline.send?, List.length_nil, room, if_true, List.nil_append]
  · rcases r with e | token <;> rfl

/-- A worker that the consumer waits for goes on until there is something to
receive. -/
theorem run_work {p : Pipeline} (room : 0 < p.capacity)
    (blocked : p.receive? = none) (started : p.worker.isIdle = false) :
    ∃ work, work.all Event.isWork = true ∧ work.length ≤ 2
      ∧ Run ⟨p, true⟩ work ⟨p.work, true⟩
      ∧ p.work.receive?.isSome = true := by
  obtain ⟨worker, capacity, queue, finished, log⟩ := p
  -- the consumer waits only if there is nothing to receive and the worker can
  -- go on
  cases finished with
  | some e => cases blocked
  | none =>
    rcases queue with - | ⟨e | token, queue⟩
    · cases worker with
      | idle lexer => cases started
      | stopped => cases blocked
      | lost => cases blocked
      | sending r lexer =>
        obtain ⟨p, sent, receives⟩ := exists_sent room r lexer log
        have work : Pipeline.work ⟨.sending r lexer, capacity, [], none, log⟩
            = p := by
          simp only [Pipeline.work, Pipeline.lex?, Option.getD_none,
            sent, Option.getD_some]
        rw [work]
        exact ⟨[.sent], rfl, by decide, .cons (.send sent) (.nil _), receives⟩
      | lexing lexer =>
        cases result : lexer.next.result with
        | none =>
          have work : Pipeline.work ⟨.lexing lexer, capacity, [], none, log⟩
              = ⟨.lost, capacity, [], none,
                lexer.next.trace.records.reverse ++ log⟩ := by
            simp only [Pipeline.work, Pipeline.lex?, result, Option.getD_some,
              Pipeline.send?, Option.getD_none]
          rw [work]
          refine ⟨[.lexed], rfl, by decide, .cons (.lex ?_) (.nil _), rfl⟩
          simp only [Pipeline.lex?, result]
        | some r =>
          obtain ⟨p, sent, receives⟩ :=
            exists_sent room r lexer.next.lexer
              (lexer.next.trace.records.reverse ++ log)
          have work : Pipeline.work ⟨.lexing lexer, capacity, [], none, log⟩
              = p := by
            simp only [Pipeline.work, Pipeline.lex?, result,
              Option.getD_some, sent]
          rw [work]
          refine ⟨[.lexed, .sent], rfl, by decide,
            .cons (.lex ?_) (.cons (.send sent) (.nil _)), receives⟩
          simp only [Pipeline.lex?, result]
    · cases blocked
    · cases blocked

/-- A consumer that is kept waiting has a worker at work. -/
theorem Sound.not_idle {p : Pipeline} (sound : Sound ⟨p, true⟩)
    (blocked : p.receive? = none) :
    p.worker.isIdle = false := by
  refine sound.started rfl ?_
  show p.finished = none
  cases finished : p.finished with
  | none => rfl
  | some e => simp [Pipeline.receive?, finished] at blocked

/-- A consumer that waits gets a result once the worker has had two turns. -/
theorem Sound.exists_answer {s : Session} (sound : s.Sound)
    (waiting : s.waiting = true) :
    ∃ work r s', work.all Event.isWork = true ∧ work.length ≤ 2 ∧
      Run s (work ++ [.received r]) s' := by
  obtain ⟨p, _⟩ := s
  cases waiting
  cases ready : p.receive? with
  | some got =>
    obtain ⟨p', r⟩ := got
    exact ⟨[], r, ⟨p', false⟩, rfl, by decide, .cons (.receive ready) (.nil _)⟩
  | none =>
    obtain ⟨work, turns, short, run, receives⟩ :=
      run_work sound.room ready (sound.not_idle ready)
    obtain ⟨⟨p', r⟩, got⟩ := Option.isSome_iff_exists.mp receives
    exact ⟨work, r, ⟨p', false⟩, turns, short,
      run.append (.cons (.receive got) (.nil _))⟩

/-- `Pipeline.next` is one of the ways to get a result. -/
theorem exists_run_next {p : Pipeline} (sound : Sound ⟨p, false⟩) :
    ∃ events, received events = [p.next.2] ∧
      Run ⟨p, false⟩ events ⟨p.next.1, false⟩ := by
  have step : Step ⟨p, false⟩ .requested ⟨p.request, true⟩ := .request
  have ready := step.sound sound
  cases now : p.request.receive? with
  | some got =>
    have next : p.next = got := by simp [Pipeline.next, now]
    rw [next]
    exact ⟨_, rfl, .cons step (.cons (.receive now) (.nil _))⟩
  | none =>
    obtain ⟨work, turns, -, run, receives⟩ :=
      run_work ready.room now (ready.not_idle now)
    obtain ⟨got, later⟩ := Option.isSome_iff_exists.mp receives
    have next : p.next = got := by simp [Pipeline.next, now, later]
    rw [next]
    refine ⟨_, ?_, .cons step (run.append (.cons (.receive later) (.nil _)))⟩
    show received (work ++ [.received got.2]) = [got.2]
    rw [received_append, received_of_isWork turns]
    rfl

/-- **The order of the steps does not show.** Whatever it is, the results that
the consumer gets are those that its lexer gives when it is asked again and
again; the consumer is told at most once that it has started the worker; and
when it waits for a result it gets one after two turns of the worker at most. -/
theorem received_eq_answers (lexer : Lexer) (capacity : Nat)
    {events : List Event} {s : Session}
    (run : Run (new lexer capacity) events s) :
    received events = lexer.answers (received events).length
      ∧ events.countP Event.isFirstStart ≤ 1
      ∧ (s.waiting = true → ∃ work r s', work.all Event.isWork = true
        ∧ work.length ≤ 2
          ∧ Run s (work ++ [.received r]) s') := by
  refine ⟨?_, run.countP_isFirstStart_le,
    (run.sound (sound_new lexer capacity)).exists_answer⟩
  calc received events = received events ++ s.pipeline.due 0 := by
        rw [Pipeline.due_zero, List.append_nil]
    _ = (Pipeline.new lexer capacity).due (received events).length :=
      (run.due 0).symm
    _ = lexer.answers (received events).length := by rw [Pipeline.due_new]

/-- A letter and the end of the stream, through a queue of no size. -/
theorem letterwise_received :
    ∃ c, Lexicon.ofGrammar letterwise ⟨false, .default⟩ = .ok c
      ∧ ∃ events s, Run (new (Lexer.new c [.bytes [97]] 2) 0) events s
        ∧ received events = [.ok ⟨⟨0, "letter"⟩, "a"⟩,
          .error .endOfStream] := by
  obtain ⟨c, ok, master, groups, -⟩ := letterwise.exists_lexicon
  have fit : ∀ chunk ∈ [([97] : List UInt8)],
      chunk ≠ [] ∧ chunk.length ≤ (Window.new 2).growth := by
    decide
  have results : (Lexer.new c [.bytes [97]] 2).results 2
      = [.ok ⟨⟨0, "letter"⟩, "a"⟩, .error .endOfStream].map some := by
    refine (Lexer.results_of_chunks c fit 2).trans ?_
    have undecided : c.verdictSoFar? [97] = none := by
      simp [Lexicon.verdictSoFar?, master, show Text.complete [97] = [97]
        from rfl, letterwise.search?_master, Match.stop, Match.group?]
    rw [Lexicon.lexReads_cons Lexicon.verdictSoFar?_nil, List.nil_append,
      Lexicon.lexReads_nil undecided]
    simp [Lexicon.lexWhole, Lexicon.finalVerdict, Lexicon.verdict,
      Lexicon.classify, master, groups, letterwise.search?_master,
      Match.start, Match.stop, Match.group?, Match.fills,
      letterwise.letters, CharSet.contains, Role.result?, Text.lossy,
      Text.decodeLossy_cons_ascii, Text.decodeLossy]
  have sound := sound_new (Lexer.new c [.bytes [97]] 2) 0
  obtain ⟨first, one, run⟩ := exists_run_next sound
  obtain ⟨second, another, later⟩ := exists_run_next (run.sound sound)
  have both := run.append later
  have answers := (received_eq_answers _ _ both).1
  rw [received_append, one, another] at answers
  refine ⟨c, ok, _, _, both, ?_⟩
  rw [received_append, one, another, answers]
  show (Lexer.new c [.bytes [97]] 2).answers 2 = _
  rw [Lexer.answers_eq_results, results]
  rfl

end Session

end Lexigram
