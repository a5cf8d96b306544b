import Lexigram.Proofs.Stream.Interruptions
import Lexigram.Proofs.Stream.Pieces
import Lexigram.Proofs.Stream.Refinement

/-!
Reads that fail. What comes behind a part of a script is of no account before
the lexer reads it: up to there the requests are the same, whatever comes
(`Lexer.requests_onto`). A failure that is no interruption is given as the
result of the request that meets it, and nothing of the input is lost or
consumed for it (`Lexer.failures_contained`).
-/

namespace Lexigram

namespace Source

variable {source : Source}

/-- A script is read from the front. -/
theorem read_append {chunk : Chunk} (space : Nat) (rest tail : Source) :
    read space (chunk :: rest ++ tail) = ((read space (chunk :: rest)).1,
      (read space (chunk :: rest)).2 ++ tail) := by
  obtain content | f | - := chunk
  · simp only [read, List.cons_append]
    cases content.drop space <;> rfl
  · rfl
  · rfl

/-- A script with more in it than interruptions is read without what comes
behind. -/
theorem readPatiently_append (h : source.uninterrupted ≠ []) (space : Nat)
    (tail : Source) :
    (source ++ tail).readPatiently space
      = ((source.readPatiently space).1, (source.readPatiently space).2.1,
        (source.readPatiently space).2.2 ++ tail) := by
  induction source using attempt_induction with
  | nil => exact absurd rfl h
  | interruption message rest ih =>
    have rest := ih h
    rw [List.cons_append, readPatiently_interruption,
      readPatiently_interruption, rest]
  | other chunk rest calm =>
    rw [readPatiently_cons calm, List.cons_append, readPatiently_cons calm,
      ← List.cons_append, read_append]

/-- Interruptions at the end of a script are attempts to read what comes
behind. -/
theorem readPatiently_append_of_eq_nil (h : source.uninterrupted = [])
    (space : Nat) (tail : Source) :
    (source ++ tail).readPatiently space
      = ((source.readPatiently space).1 ++ (tail.readPatiently space).1,
        (tail.readPatiently space).2) := by
  induction source using attempt_induction with
  | nil => rfl
  | interruption message rest ih =>
    have rest := ih h
    rw [List.cons_append, readPatiently_interruption,
      readPatiently_interruption, rest]
    rfl
  | other chunk rest calm =>
    rw [uninterrupted_cons calm] at h
    cases h

end Source

namespace Window

variable {source : Source}

theorem fill_append (w : Window) (h : source.uninterrupted ≠ [])
    (tail : Source) :
    w.fill (source ++ tail) = (w.fill source).map (· ++ tail) id := by
  simp only [fill, Source.readPatiently_append h]
  obtain ⟨attempts, served, rest⟩ := source.readPatiently w.makeRoom.space
  cases served <;> rfl

theorem fill_append_of_eq_nil (w : Window) (h : source.uninterrupted = [])
    (tail : Source) :
    w.fill (source ++ tail) = (w.fill tail).map id
      ((source.readPatiently w.makeRoom.space).1 ++ ·) := by
  simp only [fill, Source.readPatiently_append_of_eq_nil h]
  obtain ⟨attempts, served, rest⟩ := tail.readPatiently w.makeRoom.space
  cases served <;> simp [Filled.map]

end Window

namespace Lexer

variable {l m : Lexer} {trace : Trace}

/-! ## Scripts that go on -/

/-- A lexer with more behind its script. -/
def onto (l : Lexer) (tail : Source) : Lexer :=
  l.mapSource (· ++ tail)

theorem onto_nil (l : Lexer) : l.onto [] = l := by
  simp [onto, mapSource]

/-- Whether a scan comes, with this trace, to a lexer that is at the end of its
script and reads on. -/
structure ComesTo (l : Lexer) (trace : Trace) (m : Lexer) : Prop where
  refills : m.Refills
  drained : m.source = []
  scan : ∀ tail, (l.onto tail).scan = (m.onto tail).scan.behind trace

/-- A lexer with a script of interruptions that fills its window has come to the
end of it. -/
theorem exists_comesTo_of_refills (refills : l.Refills)
    (calm : l.source.uninterrupted = []) :
    ∃ trace m, l.ComesTo trace m := by
  refine ⟨⟨(l.source.readPatiently l.window.makeRoom.space).1, []⟩,
    { l with source := [] }, refills, rfl, ?_⟩
  intro tail
  have here : (l.onto tail).Refills := refills
  have there : ({ l with source := [] }.onto tail).Refills := refills
  have fill := l.window.fill_append_of_eq_nil calm tail
  have left : (l.onto tail).window.fill (l.onto tail).source
      = (l.window.fill tail).map id
      ((l.source.readPatiently l.window.makeRoom.space).1 ++ ·) := fill
  have right : ({ l with source := [] }.onto tail).window.fill
      ({ l with source := [] }.onto tail).source
      = l.window.fill tail := rfl
  rw [scan_of_refills here, scan_of_refills there, refill, refill, left, right]
  obtain ⟨window, source, outcome, reads, records⟩ := l.window.fill tail
  cases outcome with
  | read count =>
    show Turn.behind _ _ = (Turn.behind _ _).behind _
    rw [Turn.behind_behind]
    rfl
  | failure f => rfl
  | death => rfl

theorem pass_onto (inside : ¬ (l.Refills ∧ l.source.uninterrupted = []))
    (tail : Source) :
    (l.onto tail).pass = l.pass.map (· ++ tail) id :=
  pass_map rfl fun refills =>
    l.window.fill_append (fun calm => inside ⟨refills, calm⟩) tail

/-- A scan does not depend on what comes behind the script, or it comes to the
end of it. -/
theorem scan_onto (l : Lexer) :
    (∀ tail, (l.onto tail).scan = l.scan.map (· ++ tail) id) ∨ ∃ trace m,
      l.ComesTo trace m := by
  refine pass_induction (motive := fun l turn =>
    (∀ tail, (l.onto tail).scan = turn.map (· ++ tail) id)
      ∨ ∃ trace m, l.ComesTo trace m) ?more ?done l
  case more =>
    intro l l' trace more ih
    by_cases inside : l.Refills ∧ l.source.uninterrupted = []
    · exact .inr (exists_comesTo_of_refills inside.1 inside.2)
    · have scan (tail : Source) : (l.onto tail).scan
          = (l'.onto tail).scan.behind trace := by
        rw [scan_eq_pass, pass_onto inside tail, more]
        rfl
      obtain same | ⟨behind, m, comes⟩ := ih
      · left
        intro tail
        rw [scan, same]
        rfl
      · right
        refine ⟨trace.append behind, m, comes.refills, comes.drained,
          fun tail => ?_⟩
        rw [scan, comes.scan, Turn.behind_behind]
  case done =>
    intro l turn done
    by_cases inside : l.Refills ∧ l.source.uninterrupted = []
    · exact .inr (exists_comesTo_of_refills inside.1 inside.2)
    · left
      intro tail
      rw [scan_eq_pass, pass_onto inside tail, done]
      rfl

/-- A request does not depend on what comes behind the script, or it comes to
the end of it. -/
theorem next_onto (l : Lexer) :
    (∀ tail, (l.onto tail).next = l.next.map (· ++ tail) id)
      ∨ l.state.Awake ∧ ∃ trace m, l.ComesTo trace m := by
  by_cases awake : l.state.Awake
  · obtain same | comes := l.scan_onto
    · exact .inl fun tail => next_map rfl fun _ => same tail
    · exact .inr ⟨awake, comes⟩
  · exact .inl fun tail => next_map rfl fun now => absurd now awake

/-- Whether none of `n` requests depends on what comes behind the script. -/
def Detached (l : Lexer) (n : Nat) : Prop :=
  ∀ k < n, ∀ tail, ((l.afterRequests k).onto tail).next
    = (l.afterRequests k).next.map (· ++ tail) id

theorem Detached.requests_eq {n : Nat} (h : l.Detached n) (tail : Source) :
    (l.onto tail).requests n = (l.requests n).map (Turn.map (· ++ tail) id)
      ∧ (l.onto tail).afterRequests n = (l.afterRequests n).onto tail :=
  requests_map fun k less => h k less tail

/-- Requests do not depend on what comes behind the script, up to one that comes
to the end of it. -/
theorem detached_or_comesTo (l : Lexer) (n : Nat) :
    l.Detached n ∨ ∃ k < n, l.Detached k ∧ (l.afterRequests k).state.Awake
      ∧ ∃ trace m, (l.afterRequests k).ComesTo trace m := by
  induction n with
  | zero => exact .inl fun k less => absurd less (Nat.not_lt_zero k)
  | succ n ih =>
    obtain detached | ⟨k, less, comes⟩ := ih
    · obtain same | ⟨awake, comes⟩ := (l.afterRequests n).next_onto
      · left
        intro k less
        obtain before | rfl := Nat.lt_succ_iff_lt_or_eq.mp less
        · exact detached k before
        · exact same
      · exact .inr ⟨n, Nat.lt_succ_self n, detached, awake, comes⟩
    · exact .inr ⟨k, Nat.lt_succ_of_lt less, comes⟩

/-! ## What is behind the script -/

theorem reads_fill_ne_nil (w : Window) (source : Source)
    (lives : (w.fill source).outcome ≠ .death) :
    (w.fill source).reads ≠ [] := by
  simp only [Window.fill] at lives ⊢
  generalize source.readPatiently w.makeRoom.space = patient at lives ⊢
  obtain ⟨attempts, served, rest⟩ := patient
  cases served with
  | bytes content => simp
  | failure f => simp
  | death => exact absurd rfl lives

/-- A lexer that reads on reads something, unless the source ends its thread. -/
theorem reads_ne_nil_of_refills (h : l.Refills) :
    l.scan.trace.reads ≠ [] ∨ l.scan.result = none := by
  have reads := reads_fill_ne_nil l.window l.source
  rw [scan_of_refills h, refill]
  cases outcome : (l.window.fill l.source).outcome with
  | read count =>
    left
    intro none
    exact reads (by simp [outcome]) (List.append_eq_nil_iff.mp none).1
  | failure f => exact .inl (reads (by simp [outcome]))
  | death => exact .inr rfl

/-- A failure that is no interruption ends the scan. -/
theorem scan_of_failure {f : ReadFailure} {back : Source} (refills : l.Refills)
    (source : l.source = .failure f :: back) (final : f.kind ≠ .interrupted) :
    l.scan.result = some (.error (.readFailed f)) ∧ ∃ space,
      l.scan.trace.reads = [⟨space, .error f.kind⟩] := by
  have calm : (Chunk.failure f).isInterruption = false := by
    obtain ⟨kind, message⟩ := f
    cases kind with
    | interrupted => exact absurd rfl final
    | wouldBlock => rfl
    | unexpectedEof => rfl
    | timedOut => rfl
    | other => rfl
  have patient := Source.readPatiently_cons calm l.window.makeRoom.space back
  rw [scan_of_refills refills, refill, source, Window.fill]
  simp only [patient, Source.read]
  exact ⟨trivial, _, rfl⟩

end Lexer

/-! ## Failing reads -/

namespace Source

variable {source rest : Source}

/-- What is left of a script after a read has no failures of its own. -/
theorem mem_failure_of_read {space : Nat} {served : Served}
    {f : ReadFailure} (read : source.read space = (served, rest))
    (h : served = .failure f ∨ .failure f ∈ rest) : .failure f ∈ source := by
  match source with
  | [] =>
    cases read
    simp at h
  | .bytes content :: others =>
    simp only [Source.read, Prod.mk.injEq] at read
    obtain ⟨rfl, rfl⟩ := read
    have others : .failure f ∈ others := by
      cases left : content.drop space with
      | nil => simpa [left] using h
      | cons b bytes => simpa [left] using h
    exact List.mem_cons_of_mem _ others
  | .failure f' :: others =>
    cases read
    simpa [eq_comm] using h
  | .death :: others =>
    cases read
    simpa using h

/-- A failing read meets a failure in the script. -/
theorem Serves.exists_failure {reads : List ReadRecord} {content : List UInt8}
    (serves : source.Serves reads content rest) {r : ReadRecord}
    {kind : FailureKind} (mem : r ∈ reads) (fails : r.outcome = .error kind) :
    ∃ f, .failure f ∈ source ∧ f.kind = kind := by
  induction serves with
  | done source => cases mem
  | bytes read more ih =>
    obtain rfl | mem := List.mem_cons.mp mem
    · cases fails
    · obtain ⟨f, there, same⟩ := ih mem
      exact ⟨f, mem_failure_of_read read (.inr there), same⟩
  | failure read more ih =>
    obtain rfl | mem := List.mem_cons.mp mem
    · cases fails
      exact ⟨_, mem_failure_of_read read (.inl rfl), rfl⟩
    · obtain ⟨f, there, same⟩ := ih mem
      exact ⟨f, mem_failure_of_read read (.inr there), same⟩
  | death read more ih =>
    obtain ⟨f, there, same⟩ := ih mem
    exact ⟨f, mem_failure_of_read read (.inr there), same⟩

/-- A script with failures that are no interruptions splits at the first of
them. -/
theorem exists_first_failure {f : ReadFailure} (mem : .failure f ∈ source)
    (final : f.kind ≠ .interrupted) :
    ∃ front f' back, source = front ++ .failure f' :: back
      ∧ f'.kind ≠ .interrupted
      ∧ ∀ f, .failure f ∈ front → f.kind = .interrupted := by
  induction source with
  | nil => cases mem
  | cons chunk others ih =>
    by_cases first : ∃ f', chunk = .failure f' ∧ f'.kind ≠ .interrupted
    · obtain ⟨f', rfl, final'⟩ := first
      exact ⟨[], f', others, rfl, final', by simp⟩
    · have later : .failure f ∈ others := by
        obtain rfl | later := List.mem_cons.mp mem
        · exact absurd ⟨f, rfl, final⟩ first
        · exact later
      obtain ⟨front, f', back, rfl, final', before⟩ := ih later
      refine ⟨chunk :: front, f', back, rfl, final', fun f here => ?_⟩
      obtain rfl | here := List.mem_cons.mp here
      · exact Decidable.byContradiction fun other => first ⟨f, rfl, other⟩
      · exact before f here

end Source

namespace Lexer

/-- A request that comes to the end of the script goes on like a scan of what
comes behind. -/
theorem ComesTo.next_onto {l m : Lexer} {trace : Trace}
    (comes : l.ComesTo trace m) (awake : l.state.Awake) (tail : Source) :
    (l.onto tail).next.result = (m.onto tail).scan.result
      ∧ (l.onto tail).next.trace = trace.append (m.onto tail).scan.trace
      ∧ (l.onto tail).next.lexer.source = (m.onto tail).scan.lexer.source := by
  have awake' : (l.onto tail).state.Awake := awake
  rw [next_of_awake awake', comes.scan tail]
  cases result : (m.onto tail).scan.result with
  | none => simp [Turn.behind, result]
  | some r => simp [Turn.behind, result]

theorem ComesTo.source_onto {l m : Lexer} {trace : Trace}
    (comes : l.ComesTo trace m) (tail : Source) :
    (m.onto tail).source = tail := by
  show m.source ++ tail = tail
  rw [comes.drained, List.nil_append]

/-- Whether request `k` on a script makes these reads and then, unless the
source ends its thread, one of what comes behind the script; and the requests
before are the same, whatever that is. -/
structure ReadsOn (c : Lexicon) (front : Source) (bufferSize k : Nat)
    (reads : List ReadRecord) : Prop where
  before : ∀ tail,
    ((new c (front ++ tail) bufferSize).requests k).map Turn.outcome
    = ((new c front bufferSize).requests k).map Turn.outcome
  behind : ∀ tail, ∃ more content,
    ((new c (front ++ tail) bufferSize).afterRequests k).next.trace.reads
    = reads ++ more
      ∧ tail.Serves more content
      ((new c (front ++ tail) bufferSize).afterRequests k).next.lexer.source
      ∧ (more ≠ [] ∨
        ((new c (front ++ tail) bufferSize).afterRequests k).next.result = none)

variable {c : Lexicon} {front tail : Source} {bufferSize k : Nat} {m : Lexer}
  {trace : Trace}

theorem Detached.readsOn (detached : (new c front bufferSize).Detached k)
    (awake : ((new c front bufferSize).afterRequests k).state.Awake)
    (comes : ((new c front bufferSize).afterRequests k).ComesTo trace m) :
    ReadsOn c front bufferSize k trace.reads := by
  constructor
  · intro tail
    have same := (detached.requests_eq tail).1
    rw [show new c (front ++ tail) bufferSize
      = (new c front bufferSize).onto tail from rfl, same, List.map_map]
    rfl
  · intro tail
    have same := (detached.requests_eq tail).2
    obtain ⟨result, traces, source⟩ := comes.next_onto awake tail
    obtain ⟨content, serves, -⟩ :=
      (consumes_scan (m.onto tail)).accounts.conserves
    have refills : (m.onto tail).Refills := comes.refills
    rw [comes.source_onto] at serves
    rw [show new c (front ++ tail) bufferSize = (new c front bufferSize).onto
      tail from rfl, same, traces, source, result]
    exact ⟨_, content, rfl, serves, reads_ne_nil_of_refills refills⟩

/-- A request whose reads fail meets a failure in the script. -/
theorem exists_failure_of_request {source : Source}
    {r : ReadRecord} {kind : FailureKind}
    (mem : r ∈ ((new c source bufferSize).afterRequests k).next.trace.reads)
    (fails : r.outcome = .error kind) :
    ∃ f, .failure f ∈ source ∧ f.kind = kind := by
  have accounts := (accounts_requests (settled_new c source bufferSize)
    (located_new c source bufferSize) (k + 1)).1
  obtain ⟨content, serves, -⟩ := accounts.conserves
  rw [requests_concat, List.flatMap_append] at serves
  exact serves.exists_failure
    (List.mem_append_right _ (List.mem_flatMap_of_mem (.head _) mem)) fails

/-- Behind a last result there are no reads. -/
theorem next_after_last {l : Lexer} {j : Nat} {r : LexResult}
    (gives : (l.afterRequests j).next.result = some r) (last : r.isLast = true)
    (less : j < k) :
    (l.afterRequests k).next = ⟨l.afterRequests (j + 1), some r, .empty⟩ := by
  have stays := next_next_of_isLast gives last
  rw [← afterRequests_succ] at stays
  obtain ⟨i, rfl⟩ := Nat.exists_eq_add_of_lt less
  induction i with
  | zero => exact stays
  | succ i ih =>
    show (l.afterRequests (j + i + 1 + 1)).next = _
    rw [afterRequests_succ, ih (by omega)]
    exact stays

/-- The request that meets a failure has come to the end of the script in front
of it. -/
theorem exists_comesTo_failure {source : Source}
    {r : ReadRecord} {kind : FailureKind}
    (mem : r ∈ ((new c source bufferSize).afterRequests k).next.trace.reads)
    (fails : r.outcome = .error kind) (final : kind ≠ .interrupted) :
    ∃ front f back trace m, source = front ++ .failure f :: back ∧ f.kind = kind
      ∧ (new c front bufferSize).Detached k
      ∧ ((new c front bufferSize).afterRequests k).state.Awake
      ∧ ((new c front bufferSize).afterRequests k).ComesTo trace m
      ∧ ((new c source bufferSize).afterRequests k).next.result
      = some (.error (.readFailed f))
      ∧ ((new c source bufferSize).afterRequests k).next.trace.reads
      = trace.reads ++ [r] := by
  obtain ⟨f', there, rfl⟩ := exists_failure_of_request mem fails
  obtain ⟨front, f, back, rfl, final', before⟩ :=
    Source.exists_first_failure there final
  -- nothing in front of the first failure fails
  have calm (record : ReadRecord) (here : record
    ∈ ((new c front bufferSize).afterRequests k).next.trace.reads) :
      record ≠ r := by
    rintro rfl
    obtain ⟨f, there, same⟩ := exists_failure_of_request here fails
    exact final (same ▸ before f there)
  have script : new c (front ++ .failure f :: back) bufferSize
      = (new c front bufferSize).onto (.failure f :: back) := rfl
  obtain detached | ⟨j, less, detached, awake, trace, m, comes⟩ :=
    (new c front bufferSize).detached_or_comesTo (k + 1)
  · have same := detached k (Nat.lt_succ_self k) (.failure f :: back)
    have fewer : (new c front bufferSize).Detached k :=
      fun i less => detached i (Nat.lt_succ_of_lt less)
    rw [script, (fewer.requests_eq _).2, same] at mem
    exact absurd rfl (calm r mem)
  · have lexer := (detached.requests_eq (.failure f :: back)).2
    obtain ⟨result, traces, -⟩ := comes.next_onto awake (.failure f :: back)
    have refills : (m.onto (.failure f :: back)).Refills := comes.refills
    obtain ⟨failed, space, reads⟩ :=
      scan_of_failure refills (comes.source_onto _) final'
    rw [failed, ← lexer, ← script] at result
    rw [← lexer, ← script] at traces
    have here : j = k := by
      by_cases before : j < k
      · have stays := next_after_last result rfl before
        rw [stays] at mem
        cases mem
      · omega
    subst here
    have whole :
        ((new c (front ++ .failure f :: back) bufferSize).afterRequests
            j).next.trace.reads
          = trace.reads ++ [⟨space, .error f.kind⟩] := by
      rw [traces, ← reads]
      rfl
    rw [whole] at mem
    obtain mem | mem := List.mem_append.mp mem
    · -- these reads are made without the failure as well
      have own := (comes.next_onto awake []).2.1
      rw [onto_nil] at own
      refine absurd rfl (calm r ?_)
      rw [own]
      exact List.mem_append_left _ mem
    · obtain rfl := List.mem_singleton.mp mem
      exact ⟨front, f, back, trace, m, rfl, Except.error.inj fails, detached,
        awake, comes, result, whole⟩

end Lexer

/-- **Failing reads are contained.** Interruptions change no result, no state
and no position of any request. A read that fails otherwise meets a failure in
the script, and the request gives this failure, is in its state from then on,
and repeats it without a further read. It consumes white space at most, so its
position is behind the pieces for the earlier results and white space. And the
requests before it are the same, whatever there is in the script instead of the
failure and behind it; the request itself makes the same reads up to the one
that fails, and then reads that. -/
theorem Lexer.failures_contained (c : Lexicon) (source : Source)
    (bufferSize : Nat) :
    (∀ source', source'.uninterrupted = source.uninterrupted → ∀ n,
        ((new c source' bufferSize).requests n).map Turn.outcome
          = ((new c source bufferSize).requests n).map Turn.outcome)
      ∧ ∀ k kind,
        ∀ record ∈ ((new c source bufferSize).afterRequests k).next.trace.reads,
        record.outcome = .error kind → kind ≠ .interrupted →
          ∃ front f back reads, source = front ++ .failure f :: back
            ∧ f.kind = kind
            ∧ ((new c source bufferSize).afterRequests k).next.trace.reads
            = reads ++ [record]
            ∧ ReadsOn c front bufferSize k reads
            ∧ ((new c source bufferSize).afterRequests k).next.result
            = some (.error (.readFailed f))
            ∧ ((new c source bufferSize).afterRequests (k + 1)).state
            = .fatalError (.readFailed f)
            ∧ (∀ piece ∈ ((new c source bufferSize).afterRequests k).nextPieces,
              piece.role = .whitespace)
            ∧ ((new c source bufferSize).afterRequests (k + 1)).position
              = Piece.past .start ((new c source bufferSize).requestPieces
                (k + 1))
            ∧ Piece.results .start
              ((new c source bufferSize).requestPieces (k + 1)) = tokenResults
              (((new c source bufferSize).requests k).map (·.result))
            ∧ ∀ n, ((new c source bufferSize).afterRequests (k + 1)).requests n
              = List.replicate n
                ⟨(new c source bufferSize).afterRequests (k + 1),
                  some (.error (.readFailed f)), .empty⟩ := by
  have settled := settled_new c source bufferSize
  have located := located_new c source bufferSize
  refine ⟨fun source' same n => outcomes_congr c same bufferSize n,
    fun k kind record mem fails final => ?_⟩
  obtain ⟨front, f, back, trace, m, script, same, detached, awake, comes,
      gives, reads⟩ :=
    exists_comesTo_failure mem fails final
  obtain ⟨accounts, results, -⟩ := accounts_requests settled located (k + 1)
  have state := state_next (settled_afterRequests settled k) gives
  have consumes := consumes_next (settled_afterRequests settled k)
    (accounts_requests settled located k).2.2
  have stays := next_next_of_isLast gives rfl
  have nothing : tokenResults [some (.error (.readFailed f))] = [] := rfl
  rw [← afterRequests_succ] at state stays
  rw [requests_concat, List.map_append, tokenResults_append, List.map_cons,
    List.map_nil, gives, nothing, List.append_nil] at results
  refine ⟨front, f, back, trace.reads, script, same, reads,
    detached.readsOn awake comes, gives, state, ?_,
    accounts.position, results, requests_of_next_eq stays⟩
  apply consumes.stands.forall_whitespace
  intro r last
  cases gives.symm.trans last
  rfl

/-! ## A read that comes too late -/

/-- A letter, an interruption, and a failure where more could have come. -/
def lateRead : Source :=
  [.bytes [97], .failure ⟨.interrupted, ""⟩, .failure ⟨.timedOut, "late"⟩]

open Pattern in
/-- The letter is read, but more could belong to it, so the first request reads
on and fails. -/
theorem Lexer.lateRead_contained :
    ∃ c, Lexicon.ofGrammar letterwise ⟨false, .default⟩ = .ok c
      ∧ (new c lateRead 2).next.trace.reads = [⟨2, .ok 1⟩,
        ⟨1, .error .interrupted⟩, ⟨1, .error .timedOut⟩]
      ∧ ∃ f, f.kind = .timedOut
        ∧ (new c lateRead 2).next.result = some (.error (.readFailed f))
        ∧ (new c lateRead 2).next.lexer.state
        = .fatalError (.readFailed f) := by
  obtain ⟨c, ok, master, -⟩ := letterwise.exists_lexicon
  have undecided : c.verdictSoFar? [97] = none := by
    simp [Lexicon.verdictSoFar?, master, show Text.complete [97] = [97]
      from rfl, letterwise.search?_master, Match.stop, Match.group?]
  -- the lexer behind the first read
  let letter : Lexer :=
    ⟨c, lateRead.tail, ⟨2, 2, 0, [97], false⟩, .start, .awaitingRefill⟩
  let first : Filled :=
    ⟨letter.window, letter.source, .read 1, [⟨2, .ok 1⟩], []⟩
  have scan : (new c lateRead 2).scan
      = letter.scan.behind (fillTrace first) := by
    have refills : (new c lateRead 2).Refills := ⟨rfl, .inl rfl⟩
    have fill : (new c lateRead 2).window.fill (new c lateRead 2).source
        = first := by
      show (Window.new 2).fill lateRead = _
      rfl
    rw [scan_of_refills refills, refill, fill]
    rfl
  have fails :
      letter.scan.result = some (.error (.readFailed ⟨.timedOut, "late"⟩)) ∧
        letter.scan.trace.reads
          = [⟨1, .error .interrupted⟩, ⟨1, .error .timedOut⟩] := by
    have step : letter.step = _ := step_of_going rfl
    have undecided : letter.lexicon.verdictSoFar? letter.window.filled = none :=
      undecided
    rw [undecided] at step
    have refills : letter.Refills := ⟨rfl, .inr step⟩
    have fill : letter.window.fill letter.source
        = ⟨letter.window, [], .failure ⟨.timedOut, "late"⟩,
          [⟨1, .error .interrupted⟩, ⟨1, .error .timedOut⟩], []⟩ := by
      show (⟨2, 2, 0, [97], false⟩ : Window).fill lateRead.tail = _
      rfl
    rw [scan_of_refills refills, refill, fill]
    exact ⟨rfl, rfl⟩
  have reads : (new c lateRead 2).next.trace.reads
      = [⟨2, .ok 1⟩, ⟨1, .error .interrupted⟩, ⟨1, .error .timedOut⟩] := by
    have awake : (new c lateRead 2).state.Awake := trivial
    simp [next_of_awake awake, scan, Turn.behind, fails, Trace.append,
      fillTrace, first]
  have mem : (⟨1, .error .timedOut⟩ : ReadRecord)
      ∈ ((new c lateRead 2).afterRequests 0).next.trace.reads := by
    simp [afterRequests, reads]
  obtain ⟨_, f, _, _, -, kind, -, -, gives, state, -⟩ :=
    (failures_contained c lateRead 2).2 0 .timedOut _ mem rfl (by decide)
  exact ⟨c, ok, reads, f, kind, gives, state⟩

end Lexigram
