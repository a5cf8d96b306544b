import Lexigram.Proofs.Stream.Passes

/-!
Interrupted reads change nothing. A lexer uses its source in nothing but filling
the window; so if two sources fill it alike, passes, scans and requests are
alike as well (`requests_map`). Sources that differ in interruptions do: the
attempts that are interrupted are left out of the reads, and everything else is
the same (`requests_calmed`).
-/

namespace Lexigram

/-! ## Maps of sources -/

section

variable (g : Source → Source) (t : List ReadRecord → List ReadRecord)

/-- A filled window, with another source and other reads. -/
def Filled.map (f : Filled) : Filled :=
  { f with source := g f.source, reads := t f.reads }

/-- A lexer on another source. -/
def Lexer.mapSource (l : Lexer) : Lexer :=
  { l with source := g l.source }

/-- A turn with another source and other reads. -/
def Turn.map (turn : Turn) : Turn :=
  ⟨turn.lexer.mapSource g, turn.result,
    ⟨t turn.trace.reads, turn.trace.records⟩⟩

/-- A pass with another source and other reads. -/
def Pass.map : Pass → Pass
  | .more l trace => .more (l.mapSource g) ⟨t trace.reads, trace.records⟩
  | .done turn => .done (turn.map g t)

end

namespace Lexer

variable {g : Source → Source} {t : List ReadRecord → List ReadRecord}
  {l : Lexer}

theorem refill_map
    (h : l.window.fill (g l.source) = (l.window.fill l.source).map g t) :
    (l.mapSource g).refill = l.refill.map g t := by
  have same : (l.mapSource g).window.fill (l.mapSource g).source
    = (l.window.fill l.source).map g t := h
  rw [refill, refill, same]
  obtain ⟨window, source, outcome, reads, records⟩ := l.window.fill l.source
  cases outcome with
  | read count => rfl
  | failure f => rfl
  | death => rfl

/-- A pass uses the source to fill the window, if at all. -/
theorem pass_map (none : t [] = []) (h : l.Refills →
      l.window.fill (g l.source) = (l.window.fill l.source).map g t) :
    (l.mapSource g).pass = l.pass.map g t := by
  have seen (records : List LogRecord) : (⟨t [], records⟩ : Trace)
    = ⟨[], records⟩ := by rw [none]
  obtain ⟨refills, fills⟩ | ⟨length, nonempty, step, skips⟩
    | ⟨length, r, nonempty, step, finishes⟩
    | ⟨empty, exhausted, ends⟩ := l.pass_cases
  · have refills' : (l.mapSource g).Refills := refills
    rw [pass_of_refills refills', fills, refill_map (h refills)]
  · have step' : (l.mapSource g).step = .skip length := step
    rw [skips, pass,
      if_neg (by rw [mapSource, nonempty]; exact Bool.false_ne_true), step']
    exact congrArg (Pass.more _) (seen _).symm
  · have step' : (l.mapSource g).step = .finish length r := step
    rw [finishes, pass,
      if_neg (by rw [mapSource, nonempty]; exact Bool.false_ne_true), step']
    exact congrArg (fun trace => Pass.done ⟨_, _, trace⟩) (seen _).symm
  · rw [ends, pass, mapSource, if_pos empty, if_pos exhausted]
    exact congrArg (fun trace => Pass.done ⟨_, _, trace⟩) (seen _).symm

/-- A lexer that is not at work gives what it has given, and a scan is all that
there is to a request else. -/
theorem next_map (none : t [] = [])
    (h : l.state.Awake → (l.mapSource g).scan = l.scan.map g t) :
    (l.mapSource g).next = l.next.map g t := by
  have seen : (⟨t [], []⟩ : Trace) = .empty := by rw [none]; rfl
  by_cases awake : l.state.Awake
  · have awake' : (l.mapSource g).state.Awake := awake
    rw [next_of_awake awake, next_of_awake awake', h awake]
    cases result : l.scan.result with
    | none => simp only [Turn.map, result]
    | some r => simp only [Turn.map, result]; rfl
  · have state : (l.mapSource g).state = l.state := rfl
    obtain given | ⟨cause, given⟩ := LexerState.cases_of_not_awake awake
    · rw [next, next, state, given]
      exact congrArg (fun trace => (⟨_, _, trace⟩ : Turn)) seen.symm
    · rw [next, next, state, given]
      exact congrArg (fun trace => (⟨_, _, trace⟩ : Turn)) seen.symm

/-- Requests are alike as long as each of them is. -/
theorem requests_map {n : Nat}
    (h : ∀ k < n, ((l.afterRequests k).mapSource g).next
      = (l.afterRequests k).next.map g t) :
    (l.mapSource g).requests n = (l.requests n).map (Turn.map g t)
      ∧ (l.mapSource g).afterRequests n = (l.afterRequests n).mapSource g := by
  induction n generalizing l with
  | zero => exact ⟨rfl, rfl⟩
  | succ n ih =>
    have first : (l.mapSource g).next = l.next.map g t := h 0 (Nat.succ_pos n)
    obtain ⟨turns, lexer⟩ :=
      ih (l := l.next.lexer) fun k less => h (k + 1) (Nat.succ_lt_succ less)
    rw [requests, requests, afterRequests, afterRequests, first]
    exact ⟨congrArg (l.next.map g t :: ·) turns, lexer⟩

end Lexer

/-! ## Interrupted reads -/

/-- Whether a chunk is an interruption. -/
def Chunk.isInterruption : Chunk → Bool
  | .failure ⟨.interrupted, _⟩ => true
  | _ => false

/-- Whether a read was interrupted. -/
def ReadRecord.isInterrupted (r : ReadRecord) : Bool :=
  match r.outcome with
  | .error .interrupted => true
  | _ => false

/-- The reads that were not interrupted. -/
def completed (reads : List ReadRecord) : List ReadRecord :=
  reads.filter (!·.isInterrupted)

namespace Source

/-- A source without its interruptions. -/
def uninterrupted (source : Source) : Source :=
  source.filter (!·.isInterruption)

theorem uninterrupted_cons {chunk : Chunk} (h : chunk.isInterruption = false)
    (rest : Source) :
    uninterrupted (chunk :: rest) = chunk :: rest.uninterrupted := by
  simp [uninterrupted, h]

/-- A chunk that is no interruption is read at once. -/
theorem readPatiently_cons {chunk : Chunk} (h : chunk.isInterruption = false)
    (space : Nat) (rest : Source) :
    readPatiently space (chunk :: rest) = ([], read space (chunk :: rest)) := by
  rw [readPatiently]
  rintro message rest ⟨⟩
  cases h

/-- An interruption is an attempt to read what comes behind it. -/
theorem readPatiently_interruption (space : Nat) (message : String)
    (rest : Source) :
    readPatiently space (.failure ⟨.interrupted, message⟩ :: rest)
      = (⟨space, .error .interrupted⟩ :: (rest.readPatiently space).1,
        (rest.readPatiently space).2) :=
  rfl

/-- Induction along the attempts to read, up to the first chunk that is no
interruption. -/
theorem attempt_induction {motive : Source → Prop}
    (nil : motive []) (interruption : ∀ message rest, motive rest →
      motive (.failure ⟨.interrupted, message⟩ :: rest)) (other : ∀ chunk rest,
      chunk.isInterruption = false → motive (chunk :: rest)) (source : Source) :
    motive source := by
  induction source with
  | nil => exact nil
  | cons chunk rest ih =>
    cases h : chunk.isInterruption with
    | false => exact other chunk rest h
    | true =>
      obtain content | ⟨kind, message⟩ | - := chunk
      · cases h
      · cases kind with
        | interrupted => exact interruption message rest ih
        | wouldBlock => cases h
        | unexpectedEof => cases h
        | timedOut => cases h
        | other => cases h
      · cases h

/-- The attempts before a read are the interrupted ones. -/
theorem isInterrupted_of_mem_attempts (space : Nat) (source : Source) :
    ∀ r ∈ (source.readPatiently space).1, r.isInterrupted = true := by
  induction source using attempt_induction with
  | nil => exact List.forall_mem_nil _
  | interruption message rest ih => exact List.forall_mem_cons.mpr ⟨rfl, ih⟩
  | other chunk rest h =>
    rw [readPatiently_cons h]
    exact List.forall_mem_nil _

theorem read_ne_interruption {chunk : Chunk} (h : chunk.isInterruption = false)
    (space : Nat) (rest : Source) (f : ReadFailure)
    (fails : (read space (chunk :: rest)).1 = .failure f) :
    f.kind ≠ .interrupted := by
  obtain content | ⟨kind, message⟩ | - := chunk
  · cases fails
  · cases fails
    rintro ⟨⟩
    cases h
  · cases fails

/-- A read that is not tried again was not interrupted. -/
theorem kind_of_readPatiently (space : Nat) (source : Source) (f : ReadFailure)
    (fails : (source.readPatiently space).2.1 = .failure f) :
    f.kind ≠ .interrupted := by
  induction source using attempt_induction with
  | nil => cases fails
  | interruption message rest ih => exact ih fails
  | other chunk rest h =>
    rw [readPatiently_cons h] at fails
    exact read_ne_interruption h space rest f fails

theorem read_uninterrupted {chunk : Chunk} (h : chunk.isInterruption = false)
    (space : Nat) (rest : Source) :
    read space (chunk :: rest.uninterrupted)
      = ((read space (chunk :: rest)).1,
        (read space (chunk :: rest)).2.uninterrupted) := by
  obtain content | f | - := chunk
  · simp only [read]
    cases content.drop space with
    | nil => rfl
    | cons b left => rw [uninterrupted_cons rfl]
  · rfl
  · rfl

/-- Without the interruptions there are no further attempts, and the rest is the
same. -/
theorem readPatiently_uninterrupted (space : Nat) (source : Source) :
    source.uninterrupted.readPatiently space
      = ([], (source.readPatiently space).2.1,
        (source.readPatiently space).2.2.uninterrupted) := by
  induction source using attempt_induction with
  | nil => rfl
  | interruption message rest ih => exact ih
  | other chunk rest h =>
    rw [uninterrupted_cons h, readPatiently_cons h, readPatiently_cons h,
      read_uninterrupted h]

end Source

/-- Filling a window from a source without its interruptions is the same, but
for the attempts. -/
theorem Window.fill_uninterrupted (w : Window) (source : Source) :
    w.fill source.uninterrupted = (w.fill source).map Source.uninterrupted
      completed := by
  have interrupted :=
    Source.isInterrupted_of_mem_attempts w.makeRoom.space source
  have kind := Source.kind_of_readPatiently w.makeRoom.space source
  simp only [fill, Source.readPatiently_uninterrupted]
  generalize source.readPatiently w.makeRoom.space
    = patient at interrupted kind ⊢
  obtain ⟨attempts, served, rest⟩ := patient
  have none (last : List ReadRecord) : completed (attempts ++ last)
      = completed last := by
    rw [completed, List.filter_append, List.filter_eq_nil_iff.mpr,
      List.nil_append, completed]
    intro r mem
    simp [interrupted r mem]
  cases served with
  | bytes content => simp only [Filled.map, none]; rfl
  | failure f =>
    have last : completed [⟨w.makeRoom.space, .error f.kind⟩]
        = [⟨w.makeRoom.space, .error f.kind⟩] := by
      have other := kind f rfl
      cases final : f.kind with
      | interrupted => exact absurd final other
      | wouldBlock => rfl
      | unexpectedEof => rfl
      | timedOut => rfl
      | other => rfl
    simp only [Filled.map, none, last, List.nil_append]
  | death =>
    have nothing := none []
    rw [List.append_nil] at nothing
    simp only [Filled.map, nothing]
    rfl

namespace Lexer

variable {l : Lexer}

/-- A lexer on its source without the interruptions. -/
def calmed (l : Lexer) : Lexer :=
  l.mapSource Source.uninterrupted

/-- A scan is the same without the interruptions of the source, but for the
attempts. -/
theorem scan_calmed (l : Lexer) :
    l.calmed.scan = l.scan.map Source.uninterrupted completed := by
  have pass (l : Lexer) : l.calmed.pass
      = l.pass.map Source.uninterrupted completed :=
    pass_map rfl fun _ => l.window.fill_uninterrupted l.source
  refine pass_induction (motive := fun l turn => l.calmed.scan
    = turn.map Source.uninterrupted completed) ?more ?done l
  case more =>
    intro l l' trace more ih
    rw [scan_eq_pass, pass, more]
    show l'.calmed.scan.behind _ = _
    rw [ih]
    simp only [Turn.map, Turn.behind, Trace.append,
      completed, List.filter_append]
  case done =>
    intro l turn done
    rw [scan_eq_pass, pass, done]
    rfl

/-- Interruptions change nothing. The requests to a lexer are the same without
the interruptions of the source, but for the attempts to read. -/
theorem requests_calmed (l : Lexer) (n : Nat) :
    l.calmed.requests n = (l.requests n).map
      (Turn.map Source.uninterrupted completed)
      ∧ l.calmed.afterRequests n = (l.afterRequests n).calmed :=
  requests_map fun _ _ => next_map rfl fun _ => scan_calmed _

end Lexer

/-- What can be told of a turn from outside: its result, the state and the
position. -/
def Turn.outcome (turn : Turn) : Option LexResult × LexerState × Position :=
  (turn.result, turn.lexer.state, turn.lexer.position)

/-- Sources that differ in interruptions only are told apart by no request. -/
theorem Lexer.outcomes_congr (c : Lexicon) {source source' : Source}
    (same : source'.uninterrupted = source.uninterrupted) (bufferSize n : Nat) :
    ((new c source' bufferSize).requests n).map Turn.outcome
      = ((new c source bufferSize).requests n).map Turn.outcome := by
  have calm (source : Source) : ((new c source bufferSize).requests n).map
      Turn.outcome = ((new c source.uninterrupted bufferSize).requests n).map
      Turn.outcome := by
    have turns := (requests_calmed (new c source bufferSize) n).1
    rw [show new c source.uninterrupted bufferSize
      = (new c source bufferSize).calmed from rfl, turns, List.map_map]
    rfl
  rw [calm, calm source, same]

end Lexigram
