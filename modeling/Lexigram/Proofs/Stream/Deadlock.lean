import Lexigram.Proofs.Stream.Interleaving
import Lexigram.Proofs.Stream.Progress

/-!
A worker and its consumer do not block each other. `Session.moves` bounds what
the two can still do before the consumer gets a last result: the worker takes
two steps for each result, and so does the consumer. Every step takes from it,
and until there is a last result one of the two can go on; so the consumer gets
one, whatever the order of the steps.
-/

namespace Lexigram

/-- Whether an event is more than a call to start the worker. -/
def Event.isMove : Event → Bool
  | started _ => false
  | _ => true

namespace WorkerState

/-- Whether the lexer of a worker is settled. -/
def Settled : WorkerState → Prop
  | idle lexer => lexer.Settled
  | lexing lexer => lexer.Settled
  | sending _ lexer => lexer.Settled
  | stopped => True
  | lost => True

/-- A bound on the steps that a worker will take. -/
def steps : WorkerState → Nat
  | idle lexer => 2 * (lexer.pending + 1)
  | lexing lexer => 2 * (lexer.pending + 1)
  | sending r lexer => if r.isLast then 1 else 2 * (lexer.pending + 1) + 1
  | stopped => 0
  | lost => 0

/-- A bound on the results to come from a worker, and one more: for the consumer
the end of the worker is a result. -/
def toCome : WorkerState → Nat
  | idle lexer => lexer.pending + 2
  | lexing lexer => lexer.pending + 2
  | sending r lexer => if r.isLast then 2 else lexer.pending + 3
  | stopped => 1
  | lost => 1

theorem toCome_pos (w : WorkerState) : 0 < w.toCome := by
  cases w with
  | idle lexer => exact Nat.succ_pos _
  | lexing lexer => exact Nat.succ_pos _
  | sending r lexer =>
    rw [toCome]
    split
    · exact Nat.two_pos
    · exact Nat.succ_pos _
  | stopped => exact Nat.one_pos
  | lost => exact Nat.one_pos

end WorkerState

/-- To start a worker leaves it as much to do. -/
theorem Pipeline.start_keeps (p : Pipeline) :
    p.start.1.finished = p.finished ∧ p.start.1.queue = p.queue
      ∧ (p.worker.Settled → p.start.1.worker.Settled)
      ∧ p.start.1.worker.steps = p.worker.steps
      ∧ p.start.1.worker.toCome = p.worker.toCome := by
  obtain ⟨lexer, worker, same⟩ | ⟨-, same⟩ := p.start_cases
  · rw [same, worker]
    exact ⟨rfl, rfl, id, rfl, rfl⟩
  · rw [same]
    exact ⟨rfl, rfl, id, rfl, rfl⟩

/-- Once a worker has asked its lexer for a result it has less to do. -/
theorem Pipeline.lex?_takes (p : Pipeline) {p' : Pipeline}
    (settled : p.worker.Settled) (lexed : p.lex? = some p') :
    p'.finished = p.finished ∧ p'.queue = p.queue ∧ p'.worker.Settled
      ∧ p'.worker.steps < p.worker.steps
      ∧ p'.worker.toCome ≤ p.worker.toCome := by
  obtain ⟨lexer, worker, rfl⟩ := Pipeline.lex?_eq_some.mp lexed
  rw [worker] at settled ⊢
  refine ⟨rfl, rfl, ?_⟩
  have steps : (WorkerState.lexing lexer).steps = 2 * (lexer.pending + 1) := rfl
  have toCome : (WorkerState.lexing lexer).toCome = lexer.pending + 2 := rfl
  cases gives : lexer.next.result with
  | none =>
    show WorkerState.lost.Settled ∧ 0 < _ ∧ 1 ≤ _
    exact ⟨trivial, by omega, by omega⟩
  | some r =>
    show (WorkerState.sending r lexer.next.lexer).Settled
      ∧ (WorkerState.sending r lexer.next.lexer).steps < _
      ∧ (WorkerState.sending r lexer.next.lexer).toCome ≤ _
    refine ⟨Lexer.settled_next settled, ?_⟩
    cases final : r.isLast with
    | true =>
      have h₁ : (WorkerState.sending r lexer.next.lexer).steps = 1 :=
        if_pos final
      have h₂ : (WorkerState.sending r lexer.next.lexer).toCome = 2 :=
        if_pos final
      exact ⟨by omega, by omega⟩
    | false =>
      have lt := (Lexer.advances_next settled gives final).1
      have h₁ : (WorkerState.sending r lexer.next.lexer).steps
          = 2 * (lexer.next.lexer.pending + 1) + 1 :=
        if_neg (by simp [final])
      have h₂ : (WorkerState.sending r lexer.next.lexer).toCome
          = lexer.next.lexer.pending + 3 :=
        if_neg (by simp [final])
      exact ⟨by omega, by omega⟩

/-- Once a worker has sent a result it has less to do, and there is one more in
the queue. -/
theorem Pipeline.send?_takes (p : Pipeline) {p' : Pipeline}
    (settled : p.worker.Settled) (sent : p.send? = some p') :
    p'.finished = p.finished ∧ p'.queue.length = p.queue.length + 1
      ∧ p'.worker.Settled
      ∧ p'.worker.steps < p.worker.steps
      ∧ p'.worker.toCome + 1 ≤ p.worker.toCome := by
  obtain ⟨r, lexer, worker, -, rfl⟩ := Pipeline.send?_eq_some.mp sent
  rw [worker] at settled ⊢
  refine ⟨rfl, List.length_append, ?_⟩
  cases final : r.isLast with
  | true =>
    have h₁ : (WorkerState.sending r lexer).steps = 1 := if_pos final
    have h₂ : (WorkerState.sending r lexer).toCome = 2 := if_pos final
    show WorkerState.stopped.Settled ∧ 0 < _ ∧ 1 + 1 ≤ _
    exact ⟨trivial, by omega, by omega⟩
  | false =>
    have h₁ : (WorkerState.sending r lexer).steps
      = 2 * (lexer.pending + 1) + 1 := if_neg (by simp [final])
    have h₂ : (WorkerState.sending r lexer).toCome = lexer.pending + 3 :=
      if_neg (by simp [final])
    show (WorkerState.lexing lexer).Settled ∧ 2 * (lexer.pending + 1) < _
      ∧ lexer.pending + 2 + 1 ≤ _
    exact ⟨settled, by omega, by omega⟩

namespace Session

variable {s s' : Session} {event : Event} {events : List Event}

/-- A bound on what worker and consumer can do before the consumer gets a last
result. -/
def moves (s : Session) : Nat :=
  s.pipeline.worker.steps + 2
    * (s.pipeline.queue.length + s.pipeline.worker.toCome) - s.waiting.toNat

/-- A session in which the consumer has not received a last result. -/
structure Open (s : Session) : Prop where
  unfinished : s.pipeline.finished = none
  settled : s.pipeline.worker.Settled

theorem open_new {lexer : Lexer} (settled : lexer.Settled) (capacity : Nat) :
    (new lexer capacity).Open :=
  ⟨rfl, settled⟩

/-- A step without a last result leaves less to do, unless the worker is only
told to start. -/
theorem Step.moves_le (step : Step s event s') (isOpen : s.Open)
    (more : ∀ r, event = .received r → r.isLast = false) :
    s'.Open ∧ event.isMove.toNat + s'.moves ≤ s.moves := by
  obtain ⟨unfinished, settled⟩ := isOpen
  have pos := s.pipeline.worker.toCome_pos
  cases step with
  | @start p p' first started =>
    obtain ⟨finished, queued, settles, steps, toCome⟩ := p.start_keeps
    obtain rfl : p.start.1 = p' := by rw [started]
    refine ⟨⟨finished.trans unfinished, settles settled⟩, ?_⟩
    simp only [moves, queued, steps, toCome, Event.isMove, Bool.toNat_false,
      Nat.zero_add, Nat.le_refl]
  | @request p =>
    obtain ⟨finished, queued, settles, steps, toCome⟩ := p.start_keeps
    have starts : p.request = p.start.1 := by
      rw [Pipeline.request, if_neg]
      rw [show p.finished = none from unfinished]
      exact Bool.false_ne_true
    rw [starts]
    refine ⟨⟨finished.trans unfinished, settles settled⟩, ?_⟩
    simp only [moves, queued, steps, toCome, Event.isMove,
      Bool.toNat_true, Bool.toNat_false] at pos ⊢
    omega
  | @receive p p' r got =>
    have goesOn := more r rfl
    obtain ⟨e, finished, -, -⟩ | ⟨queue, -, queued, -, rfl⟩
        | ⟨_, _, -, -, -, last, -⟩ | ⟨-, -, -, rfl, -⟩ :=
      Pipeline.receive?_cases got
    · cases unfinished.symm.trans finished
    · refine ⟨⟨unfinished, settled⟩, ?_⟩
      simp only [moves, queued, List.length_cons, Event.isMove,
        Bool.toNat_true, Bool.toNat_false] at pos ⊢
      omega
    · cases goesOn.symm.trans last
    · cases goesOn
  | @lex p p' waiting lexed =>
    obtain ⟨finished, queued, settles, steps, toCome⟩ :=
      p.lex?_takes settled lexed
    refine ⟨⟨finished.trans unfinished, settles⟩, ?_⟩
    have one := Bool.toNat_le waiting
    simp only [moves, queued, Event.isMove, Bool.toNat_true] at pos ⊢
    omega
  | @send p p' waiting sent =>
    obtain ⟨finished, queued, settles, steps, toCome⟩ :=
      p.send?_takes settled sent
    refine ⟨⟨finished.trans unfinished, settles⟩, ?_⟩
    have one := Bool.toNat_le waiting
    simp only [moves, queued, Event.isMove, Bool.toNat_true] at pos ⊢
    omega

/-- Without a last result, the moves of a run and those that are left are no
more than there were. -/
theorem Run.moves_le (run : Run s events s') (isOpen : s.Open)
    (more : ∀ r ∈ received events, r.isLast = false) :
    s'.Open ∧ events.countP Event.isMove + s'.moves ≤ s.moves := by
  induction run with
  | nil s => exact ⟨isOpen, Nat.le_of_eq (Nat.zero_add _)⟩
  | @cons s s' s'' event events step _ ih =>
    have now : ∀ r, event = .received r → r.isLast = false := by
      intro r h
      subst h
      exact more r (.head _)
    have later : ∀ r ∈ received events, r.isLast = false := by
      intro r mem
      refine more r ?_
      rw [show event :: events = [event] ++ events from rfl, received_append]
      exact List.mem_append_right _ mem
    obtain ⟨isOpen', first⟩ := step.moves_le isOpen now
    obtain ⟨isOpen'', rest⟩ := ih isOpen' later
    refine ⟨isOpen'', ?_⟩
    rw [List.countP_cons]
    cases move : event.isMove with
    | true =>
      rw [move, Bool.toNat_true] at first
      rw [if_pos rfl]
      omega
    | false =>
      rw [move, Bool.toNat_false] at first
      rw [if_neg Bool.false_ne_true]
      omega

/-! ## There is always a move -/

/-- A consumer that does not wait can ask for a result; one that waits gets it,
or has a worker that can go on. -/
theorem Sound.exists_move (sound : s.Sound) :
    ∃ event s', Step s event s' ∧
      (if s.waiting then event.isWork = true ∨ ∃ r, event = .received r
        else event = .requested) := by
  obtain ⟨p, waiting⟩ := s
  cases waiting with
  | false => exact ⟨.requested, ⟨p.request, true⟩, .request, rfl⟩
  | true =>
    obtain ⟨work, r, s', works, -, run⟩ := sound.exists_answer rfl
    -- the first step of the run that ends with an answer
    cases work with
    | nil =>
      cases run with
      | cons step _ => exact ⟨.received r, _, step, .inr ⟨r, rfl⟩⟩
    | cons event work =>
      cases run with
      | cons step _ =>
        have isWork : event.isWork = true :=
          List.all_eq_true.mp works event (.head _)
        exact ⟨event, _, step, .inl isWork⟩

/-- From every session in which there was no last result one can be received. -/
theorem Open.exists_last (isOpen : s.Open) (sound : s.Sound) :
    ∃ events r s', Run s (events ++ [.received r]) s' ∧ r.isLast = true := by
  induction same : s.moves using Nat.strongRecOn generalizing s with
  | ind moves ih =>
    obtain ⟨p, waiting⟩ := s
    cases waiting with
    | false =>
      have step : Step ⟨p, false⟩ .requested ⟨p.request, true⟩ := .request
      obtain ⟨isOpen', le⟩ := step.moves_le isOpen (by rintro r ⟨⟩)
      rw [same, Nat.add_comm] at le
      obtain ⟨events, r, s', run, last⟩ :=
        ih _ le isOpen' (step.sound sound) rfl
      exact ⟨.requested :: events, r, s', .cons step run, last⟩
    | true =>
      obtain ⟨work, r, s', works, -, run⟩ := sound.exists_answer rfl
      cases final : r.isLast with
      | true => exact ⟨work, r, s', run, final⟩
      | false =>
        have got : received (work ++ [.received r]) = [r] := by
          rw [received_append, received_of_isWork works]
          rfl
        obtain ⟨isOpen', le⟩ :=
          run.moves_le isOpen (by rw [got]; simpa using final)
        have count : 0 < (work ++ [Event.received r]).countP Event.isMove :=
          List.countP_pos_iff.mpr ⟨_, List.mem_append_right _ (.head _), rfl⟩
        obtain ⟨events, r', s'', later, last⟩ :=
          ih _ (by omega) isOpen' (run.sound sound) rfl
        refine ⟨work ++ [.received r] ++ events, r', s'', ?_, last⟩
        rw [List.append_assoc]
        exact run.append later

/-- **No deadlock.** Whatever worker and consumer have done, with a queue of any
size, over any source and also after the worker was lost: as long as the
consumer has not received a last result one of the two can go on, and a last
result can still be received. Up to then, calls to start the worker aside, there
are no more steps than four for each byte of the source and six. -/
theorem exists_move_of_run (c : Lexicon)
    (source : Source) (bufferSize capacity : Nat)
    (run : Run (new (.new c source bufferSize) capacity) events s)
    (unended : ∀ r ∈ received events, r.isLast = false) :
    (∃ event s', Step s event s'
        ∧ (if s.waiting then event.isWork = true ∨ ∃ r, event = .received r
          else event = .requested))
      ∧ (∃ later r s', Run s (later ++ [.received r]) s' ∧ r.isLast = true)
      ∧ events.countP Event.isMove ≤ 4 * source.size + 6 := by
  have sound := run.sound (sound_new _ capacity)
  obtain ⟨isOpen, le⟩ := run.moves_le
    (open_new (Lexer.settled_new c source bufferSize) capacity) unended
  refine ⟨sound.exists_move, isOpen.exists_last sound, ?_⟩
  have pending : (Lexer.new c source bufferSize).pending = source.size :=
    Nat.zero_add _
  have atStart : (new (.new c source bufferSize) capacity).moves
      = 2 * (source.size + 1) + 2 * (0 + (source.size + 2)) - 0 := by
    rw [← pending]; rfl
  omega

/-- The worker is lost at its first read, while the consumer waits. -/
theorem letterwise_lost :
    ∃ c, Lexicon.ofGrammar letterwise ⟨false, .default⟩ = .ok c
      ∧ ∃ events s, Run (new (.new c [.death] 2) 0) events s
      ∧ (∀ r ∈ received events, r.isLast = false)
        ∧ s.waiting = true ∧ s.pipeline.worker = .lost
        ∧ (∃ event s', Step s event s'
          ∧ (if s.waiting then event.isWork = true ∨ ∃ r, event = .received r
            else event = .requested))
        ∧ (∃ later r s', Run s (later ++ [.received r]) s' ∧ r.isLast = true)
        ∧ events.countP Event.isMove ≤ 4 * Source.size [.death] + 6 := by
  obtain ⟨c, ok, -⟩ := letterwise.exists_lexicon
  have lost : (Lexer.new c [.death] 2).next.result = none := by
    have scan : (Lexer.new c [.death] 2).scan.result = none := by
      rw [Lexer.scan_eq_pass]
      rfl
    rw [Lexer.next_of_awake (l := .new c [.death] 2) trivial, scan]
    exact scan
  have run : Run (new (.new c [.death] 2) 0)
      [.started true, .requested, .lexed] _ :=
    .cons (.start rfl) (.cons .request (.cons (.lex rfl) (.nil _)))
  refine ⟨c, ok, _, _, run, List.forall_mem_nil _, rfl, ?_,
    exists_move_of_run c _ 2 0 run (List.forall_mem_nil _)⟩
  dsimp only
  rw [lost]

end Session

end Lexigram
