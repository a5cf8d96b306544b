import Lexigram.Proofs.Stream.Passes

/-!
The reads of a lexer. Every read is offered some space, and takes from the
source what it brings, or an entry of the script; once one has brought nothing
there are no more. `Lexer.Reads` says that of the reads between two lexers, and
it is shown for a filling of the window, a pass, a scan and any number of
requests.
-/

namespace Lexigram

/-! ## What patient reads take -/

namespace Source

variable {source rest : Source} {space : Nat} {attempts : List ReadRecord}
  {served : Served}

/-- The entries of a script for reads that are interrupted, with these
messages. -/
def interruptions (messages : List String) : Source :=
  messages.map fun message => .failure ⟨.interrupted, message⟩

theorem weight_interruptions_append (messages : List String) (source : Source) :
    weight (interruptions messages ++ source)
      = messages.length + source.weight := by
  induction messages with
  | nil => simp [interruptions]
  | cons message messages ih =>
    show 1 + weight (interruptions messages ++ source) = _
    rw [ih, List.length_cons]
    omega

/-- Reading patiently is to pass over interruptions and then to read once. -/
theorem exists_interruptions
    (h : source.readPatiently space = (attempts, served, rest)) :
    ∃ messages others, source = interruptions messages ++ others
      ∧ attempts = List.replicate messages.length ⟨space, .error .interrupted⟩
      ∧ others.read space = (served, rest) := by
  fun_induction readPatiently space source generalizing attempts with
  | case1 message others reads outcome inner ih =>
    simp only [Prod.mk.injEq] at h
    obtain ⟨rfl, rfl⟩ := h
    obtain ⟨messages, others, rfl, rfl, read⟩ := ih inner
    exact ⟨message :: messages, others, rfl, rfl, read⟩
  | case2 source _ =>
    simp only [Prod.mk.injEq] at h
    obtain ⟨rfl, read⟩ := h
    exact ⟨[], source, rfl, rfl, read⟩

/-- A read that succeeds takes what it brings from the script, which is no more
than there was space for; any other read takes an entry. -/
theorem weight_read_add_le (h : source.read space = (served, rest)) :
    match served with
      | .bytes content =>
        rest.weight + content.length ≤ source.weight ∧ content.length ≤ space
      | _ => rest.weight + 1 ≤ source.weight := by
  match source with
  | [] => cases h; exact ⟨Nat.le_refl _, Nat.zero_le _⟩
  | .bytes content :: others =>
    have bytes : Source.read space (.bytes content :: others)
        = (.bytes (content.take space), rest) := by
      cases h; rfl
    cases h
    exact ⟨weight_read_bytes bytes, List.length_take_le _ _⟩
  | .failure _ :: _ => cases h; exact Nat.le_of_eq (Nat.add_comm _ _)
  | .death :: _ => cases h; exact Nat.le_of_eq (Nat.add_comm _ _)

/-- A read ends the thread only where the script says so, and adds nothing to
the script. -/
theorem mem_death_of_read (h : source.read space = (served, rest))
    (death : served = .death ∨ Chunk.death ∈ rest) : Chunk.death ∈ source := by
  match source with
  | [] =>
    cases h
    rcases death with death | death
    · cases death
    · exact death
  | .bytes content :: others =>
    cases h
    rcases death with death | death
    · cases death
    · cases remains : content.drop space with
      | nil =>
        rw [remains] at death
        exact .tail _ death
      | cons b left =>
        rw [remains] at death
        rcases List.mem_cons.mp death with death | death
        · cases death
        · exact .tail _ death
  | .failure _ :: _ =>
    cases h
    rcases death with death | death
    · cases death
    · exact .tail _ death
  | .death :: _ => exact .head _

end Source

/-! ## What reading takes -/

/-- Whether no read follows one that brought nothing. -/
def EndsOnce (reads : List ReadRecord) : Prop :=
  reads.Pairwise fun earlier _ => earlier.outcome ≠ .ok 0

theorem endsOnce_concat {attempts : List ReadRecord}
    (h : ∀ r ∈ attempts, r.outcome ≠ .ok 0) {more : List ReadRecord}
    (once : EndsOnce more) : EndsOnce (attempts ++ more) := by
  induction attempts with
  | nil => exact once
  | cons r attempts ih =>
    exact .cons (fun _ _ => h r (.head _)) (ih fun r mem => h r (.tail _ mem))

namespace Window

variable {w : Window} {source : Source}

theorem Fits.makeRoom (fits : w.Fits) : w.makeRoom.Fits := by
  have le := fits.growth_le_space
  have pos := w.growth_pos
  simp only [Fits, space] at *
  omega

theorem Fits.receive {content : List UInt8} (fits : w.Fits)
    (h : content.length ≤ w.space) :
    (w.receive content).Fits := by
  simp only [Fits, Window.receive, List.length_append, space] at *
  omega

/-- Filling a window makes attempts that are interrupted and then a read of
`served`. -/
theorem exists_fill (w : Window) (source : Source) :
    ∃ messages others served rest,
      source = Source.interruptions messages ++ others
      ∧ others.read w.makeRoom.space = (served, rest)
      ∧ (w.fill source).source = rest
      ∧ match served with
        | .bytes content =>
          (w.fill source).outcome = .read content.length
            ∧ (w.fill source).window = w.makeRoom.receive content
            ∧ (w.fill source).reads = List.replicate messages.length
            ⟨w.makeRoom.space, .error .interrupted⟩
            ++ [⟨w.makeRoom.space, .ok content.length⟩]
        | .failure f =>
          (w.fill source).outcome = .failure f
            ∧ (w.fill source).window = w.makeRoom
            ∧ (w.fill source).reads = List.replicate messages.length
            ⟨w.makeRoom.space, .error .interrupted⟩
            ++ [⟨w.makeRoom.space, .error f.kind⟩]
        | .death => (w.fill source).outcome = .death
          ∧ (w.fill source).window = w.makeRoom
          ∧ (w.fill source).reads
            = List.replicate messages.length
            ⟨w.makeRoom.space, .error .interrupted⟩ := by
  obtain ⟨attempts, served, rest, patient⟩ :
      ∃ attempts served rest, source.readPatiently w.makeRoom.space
        = (attempts, served, rest) :=
    ⟨_, _, _, rfl⟩
  obtain ⟨messages, others, same, rfl, read⟩ :=
    Source.exists_interruptions patient
  refine ⟨messages, others, served, rest, same, read, ?_⟩
  cases served with
  | bytes content => rw [fill, patient]; exact ⟨rfl, rfl, rfl, rfl⟩
  | failure f => rw [fill, patient]; exact ⟨rfl, rfl, rfl, rfl⟩
  | death => rw [fill, patient]; exact ⟨rfl, rfl, rfl, rfl⟩

end Window

namespace Lexer

/-- A bound on the reads to come. -/
def readsToCome (l : Lexer) : Nat :=
  l.source.weight + if l.window.exhausted then 0 else 1

/-- What holds of the reads that were made between `l` and `l'`. Once the end of
the stream has been read there are none. -/
structure Reads (l : Lexer) (reads : List ReadRecord) (l' : Lexer) : Prop where
  closed : l.window.exhausted = true → reads = [] ∧ l'.window.exhausted = true
  once : EndsOnce reads
  ended : ∀ r ∈ reads, r.outcome = .ok 0 → l'.window.exhausted = true
  count : reads.length + l'.readsToCome ≤ l.readsToCome
  weight : l'.weight ≤ l.weight
  roomy : l.window.Fits → l'.window.Fits ∧ ∀ r ∈ reads, 0 < r.space
  deaths : Chunk.death ∈ l'.source → Chunk.death ∈ l.source

namespace Reads

variable {l m n : Lexer} {reads more : List ReadRecord}

theorem refl (l : Lexer) : l.Reads [] l :=
  ⟨fun h => ⟨rfl, h⟩, .nil, fun _ h => absurd h List.not_mem_nil, by simp,
    Nat.le_refl _,
    fun fits => ⟨fits, fun _ h => absurd h List.not_mem_nil⟩, id⟩

theorem trans (first : l.Reads reads m) (second : m.Reads more n) :
    l.Reads (reads ++ more) n where
  closed exhausted := by
    obtain ⟨rfl, middle⟩ := first.closed exhausted
    obtain ⟨rfl, final⟩ := second.closed middle
    exact ⟨rfl, final⟩
  once := by
    refine List.pairwise_append.mpr ⟨first.once, second.once, ?_⟩
    intro r mem later listed last
    -- behind the end of the stream there would be no later read
    rw [(second.closed (first.ended r mem last)).1] at listed
    exact absurd listed List.not_mem_nil
  ended r mem last := by
    rcases List.mem_append.mp mem with mem | mem
    · exact (second.closed (first.ended r mem last)).2
    · exact second.ended r mem last
  count := by
    have h₁ := first.count
    have h₂ := second.count
    rw [List.length_append]
    omega
  weight := Nat.le_trans second.weight first.weight
  roomy fits := by
    obtain ⟨fitsm, h₁⟩ := first.roomy fits
    obtain ⟨fitsn, h₂⟩ := second.roomy fitsm
    refine ⟨fitsn, fun r mem => ?_⟩
    rcases List.mem_append.mp mem with mem | mem
    · exact h₁ r mem
    · exact h₂ r mem
  deaths h := first.deaths (second.deaths h)

theorem withState (h : l.Reads reads m) (state : LexerState) :
    l.Reads reads { m with state } :=
  ⟨h.closed, h.once, h.ended, h.count, h.weight, h.roomy, h.deaths⟩

/-- Consuming reads nothing. -/
theorem consume (l : Lexer) (length : Nat) : l.Reads [] (l.consume length) where
  closed exhausted := ⟨rfl, exhausted⟩
  once := .nil
  ended _ h := absurd h List.not_mem_nil
  count := by simp [readsToCome, Lexer.consume, Window.consume]
  weight := by
    show 2 * l.source.weight + (l.window.filled.drop length).length + _ ≤ _
    rw [List.length_drop]
    exact Nat.add_le_add_right (Nat.add_le_add_left (Nat.sub_le _ _) _) _
  roomy fits := ⟨fits.consume length, fun _ h => absurd h List.not_mem_nil⟩
  deaths := id

/-- Filling the window of a lexer that has not read the end of the stream, with
one read or none behind the attempts that are interrupted. -/
theorem of_fill (going : l.window.exhausted = false) {attempts : Nat}
    {last : List ReadRecord} (reads : (l.window.fill l.source).reads
      = List.replicate attempts ⟨l.window.makeRoom.space, .error .interrupted⟩
        ++ last)
    (shape : last = [] ∨ ∃ outcome, last = [⟨l.window.makeRoom.space, outcome⟩]
      ∧ (outcome = .ok 0 → (l.window.fill l.source).window.exhausted = true))
    (counted : attempts + last.length
      + (l.filled (l.window.fill l.source)).readsToCome ≤ l.readsToCome)
    (lighter : (l.filled (l.window.fill l.source)).weight ≤ l.weight)
    (fitting : l.window.Fits → (l.window.fill l.source).window.Fits)
    (dies : Chunk.death ∈ (l.window.fill l.source).source →
      Chunk.death ∈ l.source) :
    l.Reads (l.window.fill l.source).reads
      (l.filled (l.window.fill l.source)) where
  closed h := by
    rw [going] at h
    cases h
  once := by
    rw [reads]
    refine endsOnce_concat (fun r mem => ?_) ?_
    · rw [(List.mem_replicate.mp mem).2]
      rintro ⟨⟩
    · rcases shape with rfl | ⟨outcome, rfl, -⟩
      · exact .nil
      · exact List.pairwise_singleton _ _
  ended r mem final := by
    rw [reads] at mem
    rcases List.mem_append.mp mem with mem | mem
    · rw [(List.mem_replicate.mp mem).2] at final
      cases final
    · rcases shape with rfl | ⟨outcome, rfl, exhausts⟩
      · cases mem
      · rw [List.mem_singleton.mp mem] at final
        exact exhausts final
  count := by
    rw [reads, List.length_append, List.length_replicate]
    exact counted
  weight := lighter
  roomy fits := by
    have pos : 0 < l.window.makeRoom.space :=
      Nat.lt_of_lt_of_le l.window.growth_pos fits.growth_le_space
    refine ⟨fitting fits, fun r mem => ?_⟩
    rw [reads] at mem
    rcases List.mem_append.mp mem with mem | mem
    · rw [(List.mem_replicate.mp mem).2]
      exact pos
    · rcases shape with rfl | ⟨outcome, rfl, -⟩
      · cases mem
      · rw [List.mem_singleton.mp mem]
        exact pos
  deaths := dies

/-- What filling a window reads. -/
theorem filled (going : l.window.exhausted = false) :
    l.Reads (l.window.fill l.source).reads
      (l.filled (l.window.fill l.source)) := by
  obtain ⟨messages, others, served, rest, source, read, left, fill⟩ :=
    l.window.exists_fill l.source
  have size : l.source.weight = messages.length + others.weight := by
    rw [source, Source.weight_interruptions_append]
  have deaths : Chunk.death ∈ (l.window.fill l.source).source →
      Chunk.death ∈ l.source := by
    intro h
    rw [left] at h
    rw [source]
    exact List.mem_append_right _ (Source.mem_death_of_read read (.inr h))
  have weight := Source.weight_read_add_le read
  have same : l.window.makeRoom.exhausted = l.window.exhausted ∧
      l.window.makeRoom.filled = l.window.filled :=
    ⟨rfl, rfl⟩
  cases served with
  | bytes content =>
    obtain ⟨-, window, reads⟩ := fill
    refine of_fill going reads (.inr ⟨_, rfl, ?_⟩) ?_ ?_ ?_ deaths
    · intro empty
      injection empty with empty
      rw [window, List.eq_nil_of_length_eq_zero empty]
      simp [Window.receive]
    · simp only [readsToCome, Lexer.filled, window, left, Window.receive, same,
        going, size, List.length_singleton]
      cases content with
      | nil => simp at weight ⊢; omega
      | cons b bytes => simp at weight ⊢; omega
    · simp only [Lexer.weight, Lexer.filled, window, left, Window.receive, same,
        going, size, List.length_append]
      cases content with
      | nil => simp at weight ⊢; omega
      | cons b bytes => simp at weight ⊢; omega
    · intro fits
      rw [window]
      exact fits.makeRoom.receive weight.2
  | failure f =>
    obtain ⟨-, window, reads⟩ := fill
    refine of_fill going reads (.inr ⟨_, rfl, ?_⟩) ?_ ?_ ?_ deaths
    · rintro ⟨⟩
    · simp only [readsToCome, Lexer.filled, window, left, same,
        size, List.length_singleton]
      omega
    · simp only [Lexer.weight, Lexer.filled, window, left, same, size]
      omega
    · intro fits
      rw [window]
      exact fits.makeRoom
  | death =>
    obtain ⟨-, window, reads⟩ := fill
    refine of_fill going (reads.trans (List.append_nil _).symm)
      (.inl rfl) ?_ ?_ ?_ deaths
    · simp only [readsToCome, Lexer.filled, window, left, same,
        size, List.length_nil]
      omega
    · simp only [Lexer.weight, Lexer.filled, window, left, same, size]
      omega
    · intro fits
      rw [window]
      exact fits.makeRoom

/-- What a pass that is not the last reads. -/
theorem of_more {trace : Trace} (h : l.pass = .more m trace) :
    l.Reads trace.reads m := by
  obtain ⟨going, -, rfl, rfl⟩ | ⟨length, -, -, rfl, rfl⟩ := pass_eq_more h
  · exact filled going
  · exact consume l length

/-- What the last pass reads. -/
theorem of_done {turn : Turn} (h : l.pass = .done turn) :
    l.Reads turn.trace.reads turn.lexer := by
  obtain ⟨going, lexer, trace, -⟩ | ⟨length, result, -, -, rfl⟩ | rfl :=
    pass_eq_done h
  · rw [lexer, trace]
    exact filled going
  · exact consume l length
  · exact refl l

end Reads

variable {l : Lexer}

/-- What a scan reads. -/
theorem reads_scan (l : Lexer) : l.Reads l.scan.trace.reads l.scan.lexer := by
  refine pass_induction
    (motive := fun l turn => l.Reads turn.trace.reads turn.lexer) ?more ?done l
  case more =>
    intro l l' trace pass ih
    exact (Reads.of_more pass).trans ih
  case done =>
    intro l turn pass
    exact .of_done pass

/-- A scan is without a result only if the script says that a read ends the
thread. -/
theorem mem_death_of_scan (h : l.scan.result = none) :
    Chunk.death ∈ l.source := by
  revert h
  refine pass_induction (motive := fun l turn => turn.result = none →
    Chunk.death ∈ l.source) ?more ?done l
  case more =>
    intro l l' trace pass ih noResult
    exact (Reads.of_more pass).deaths (ih noResult)
  case done =>
    intro l turn pass noResult
    obtain ⟨-, -, -, dies⟩ | ⟨length, result, -, -, rfl⟩ | rfl :=
      pass_eq_done pass
    · obtain ⟨messages, others, served, rest, source, read, -, fill⟩ :=
        l.window.exists_fill l.source
      cases served with
      | bytes content => cases fill.1.symm.trans (dies noResult)
      | failure f => cases fill.1.symm.trans (dies noResult)
      | death =>
        rw [source]
        exact List.mem_append_right _ (Source.mem_death_of_read read (.inl rfl))
    · cases noResult
    · cases noResult

/-! ## What requests read -/

/-- A request scans, or repeats the last result. -/
theorem next_cases (l : Lexer) :
    (l.next.trace = l.scan.trace ∧ l.next.result = l.scan.result
        ∧ ∃ state, l.next.lexer = { l.scan.lexer with state })
      ∨ ∃ e, l.next = ⟨l, some (.error e), .empty⟩ := by
  by_cases awake : l.state.Awake
  · rw [next_of_awake awake]
    cases scan : l.scan.result with
    | some r => exact .inl ⟨rfl, scan, _, rfl⟩
    | none => exact .inl ⟨rfl, scan, l.scan.lexer.state, rfl⟩
  · obtain ⟨e, stays, -⟩ := next_of_not_awake awake
    exact .inr ⟨e, stays⟩

theorem reads_next (l : Lexer) : l.Reads l.next.trace.reads l.next.lexer := by
  obtain ⟨trace, -, state, lexer⟩ | ⟨e, h⟩ := l.next_cases
  · rw [trace, lexer]
    exact (reads_scan l).withState state
  · rw [h]
    exact .refl l

theorem mem_death_of_next (h : l.next.result = none) :
    Chunk.death ∈ l.source := by
  obtain ⟨-, result, -⟩ | ⟨e, next⟩ := l.next_cases
  · exact mem_death_of_scan (result ▸ h)
  · rw [next] at h
    cases h

/-- What any number of requests read. -/
theorem reads_requests (l : Lexer) (n : Nat) :
    l.Reads ((l.requests n).flatMap (·.trace.reads)) (l.afterRequests n) := by
  induction n generalizing l with
  | zero => exact .refl l
  | succ n ih => exact (reads_next l).trans (ih l.next.lexer)

end Lexer

end Lexigram
