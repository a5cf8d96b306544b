import Lexigram.Proofs.Stream.Delivery
import Lexigram.Proofs.Stream.Reference

/-!
A lexer with a window gives what `Lexicon.lexReads` gives for the contents of
its reads, whatever the size of the window. The lexer is followed step by step:
each step of `Lexer.scan` leaves the results to come as they are, or takes the
first of them.
-/

namespace Lexigram

/-- Whether a lexer in this state goes on when it is asked for a token. -/
def LexerState.Awake : LexerState → Prop
  | .endOfStream => False
  | .fatalError _ => False
  | _ => True

theorem LexerState.awake_after {r : LexResult} (more : r.isLast = false) :
    (LexerState.after r).Awake := by
  cases r with
  | ok token => trivial
  | error e =>
    cases e with
    | invalidToken p text => trivial
    | endOfStream => cases more
    | unmatchable p snippet => cases more
    | readFailed f => cases more
    | workerLost => cases more

theorem LexerState.cases_of_not_awake {state : LexerState}
    (asleep : ¬ state.Awake) :
    state = .endOfStream ∨ ∃ cause, state = .fatalError cause := by
  cases state with
  | endOfStream => exact .inl rfl
  | fatalError cause => exact .inr ⟨cause, rfl⟩
  | ready => exact absurd trivial asleep
  | awaitingRefill => exact absurd trivial asleep
  | tokenMatched => exact absurd trivial asleep

namespace Lexer

variable {l : Lexer}

/-- The results of the turns up to the first that is the last, `limit` at
most. -/
def results (l : Lexer) (limit : Nat) : List (Option LexResult) :=
  (l.turns limit).map (·.result)

/-! ## One step of a scan -/

theorem next_of_awake (awake : l.state.Awake) :
    l.next = match l.scan.result with
      | some result =>
        { l.scan with lexer := { l.scan.lexer with state := .after result } }
      | none => l.scan := by
  rw [next]
  cases eq : l.state with
  | endOfStream => rw [eq] at awake; exact awake.elim
  | fatalError cause => rw [eq] at awake; exact awake.elim
  | ready => rfl
  | awaitingRefill => rfl
  | tokenMatched => rfl

/-- A lexer that has given its last result gives it again. -/
theorem next_of_not_awake (asleep : ¬ l.state.Awake) :
    ∃ e, l.next = ⟨l, some (.error e), .empty⟩
      ∧ (l.state = .endOfStream ∧ e = .endOfStream
        ∨ l.state = .fatalError e) := by
  obtain state | ⟨cause, state⟩ := LexerState.cases_of_not_awake asleep
  · exact ⟨.endOfStream, by rw [next, state], .inl ⟨state, rfl⟩⟩
  · exact ⟨cause, by rw [next, state], .inr state⟩

/-- The results are those of the scan and, unless its result is the last, those
that follow. -/
theorem results_succ {limit : Nat} {result : LexResult} (awake : l.state.Awake)
    (scanned : l.scan.result = some result) :
    l.results (limit + 1) = some result :: if result.isLast then []
      else { l.scan.lexer with state := .after result }.results limit := by
  simp only [results, turns, next_of_awake awake, scanned]
  split <;> rfl

/-- Lexers whose scans end alike have the same results. -/
theorem results_congr {l' : Lexer} (awake : l.state.Awake)
    (awake' : l'.state.Awake) (lexer : l.scan.lexer = l'.scan.lexer)
    (result : l.scan.result = l'.scan.result) (limit : Nat) :
    l.results limit = l'.results limit := by
  cases limit with
  | zero => rfl
  | succ limit =>
    cases scanned : l'.scan.result with
    | none =>
      simp only [results, turns, next_of_awake awake, next_of_awake awake',
        result, scanned, List.map_cons, List.map_nil]
    | some r =>
      rw [results_succ awake (result.trans scanned),
        results_succ awake' scanned, lexer]

/-- Whether a scan starts with a read. -/
def Refills (l : Lexer) : Prop :=
  l.window.exhausted = false ∧ (l.window.isEmpty = true ∨ l.step = .refill)

theorem results_of_refills {count limit : Nat}
    (awake : l.state.Awake) (refills : l.Refills)
    (outcome : (l.window.fill l.source).outcome = .read count) :
    l.results limit = (l.filled (l.window.fill l.source)).results limit := by
  have awake' : (l.filled (l.window.fill l.source)).state.Awake := trivial
  have scanned : l.scan.lexer = (l.filled (l.window.fill l.source)).scan.lexer
      ∧ l.scan.result = (l.filled (l.window.fill l.source)).scan.result := by
    obtain ⟨going, start⟩ := refills
    by_cases nonempty : l.window.isEmpty = false
    · have refill := start.resolve_left (by simp [nonempty])
      rw [scan.eq_def, dif_pos nonempty]
      split
      · split <;> simp_all
      · simp_all
      · simp_all
    · rw [scan.eq_def, dif_neg nonempty, dif_pos going]
      split <;> simp_all
  exact results_congr awake awake' scanned.1 scanned.2 limit

theorem results_of_skip {length limit : Nat} (awake : l.state.Awake)
    (nonempty : l.window.isEmpty = false) (step : l.step = .skip length) :
    l.results limit = (l.consume length).results limit := by
  have awake' : (l.consume length).state.Awake := awake
  have scanned : l.scan = (l.consume length).scan := by
    rw [scan.eq_def, dif_pos nonempty]
    split <;> simp_all
  exact results_congr awake awake' (congrArg _ scanned)
    (congrArg _ scanned) limit

theorem results_of_finish {length limit : Nat} {result : LexResult}
    (awake : l.state.Awake) (nonempty : l.window.isEmpty = false)
    (step : l.step = .finish length result) :
    l.results (limit + 1) = some result :: if result.isLast then []
      else { l.consume length with state := .after result }.results limit := by
  have scanned : l.scan
      = ⟨l.consume length, some result,
        ⟨[], l.stepRecords (.finish length result)⟩⟩ := by
    rw [scan.eq_def, dif_pos nonempty]
    split <;> simp_all
  rw [results_succ awake (congrArg Turn.result scanned), scanned]

theorem results_of_end {limit : Nat} (awake : l.state.Awake)
    (empty : l.window.isEmpty = true) (exhausted : l.window.exhausted = true) :
    l.results (limit + 1) = [some (.error .endOfStream)] := by
  have scanned : l.scan = ⟨l, some (.error .endOfStream), .empty⟩ := by
    rw [scan.eq_def, dif_neg (by simp [empty]), dif_neg (by simp [exhausted])]
  rw [results_succ awake (congrArg Turn.result scanned)]
  rfl

/-! ## Steps and verdicts -/

/-- What a lexer does on a verdict. -/
def act (l : Lexer) : Verdict → Step
  | .piece length role _ =>
    match role.result? l.position (l.window.filled.take length) with
    | some result => .finish length result
    | none => .skip length
  | .unmatchable => .finish 0 l.unmatchable

/-- A lexer that is done with a piece of its window. -/
def pastPiece (l : Lexer) (length : Nat) (role : Role) : Lexer :=
  { l.consume length with
    state := match role.result? l.position (l.window.filled.take length) with
      | some result => .after result
      | none => l.state }

theorem isLast_of_result? {role : Role} {p : Position} {bytes : List UInt8}
    {r : LexResult} (gives : role.result? p bytes = some r) :
    r.isLast = false := by
  cases role <;> cases gives <;> rfl

theorem awake_pastPiece (awake : l.state.Awake) (length : Nat) (role : Role) :
    (l.pastPiece length role).state.Awake := by
  simp only [pastPiece]
  cases gives : role.result? l.position (l.window.filled.take length) with
  | none => exact awake
  | some r => exact LexerState.awake_after (isLast_of_result? gives)

/-- A match that the input to come cannot change is acted on by its verdict. -/
theorem stepAt_eq_act {view : List UInt8} {m : Pattern.Match}
    (front : ∀ n ≤ view.length, view.take n = l.window.filled.take n)
    (ordered : m.start ≤ m.stop) (inside : m.stop ≤ view.length)
    (settled : m.stop = view.length → l.window.exhausted = true) :
    l.stepAt view m = l.act (l.lexicon.verdict m) := by
  -- a match up to the end of the view is acted on only at the end of the stream
  have final : ¬ (m.stop = view.length ∧ (!l.window.exhausted) = true) := by
    rintro ⟨reaches, going⟩
    simp [settled reaches] at going
  simp only [stepAt, Lexicon.verdict, if_neg final]
  by_cases skipped : 0 < m.start
  · rw [if_pos skipped, dif_pos skipped, front _ (Nat.le_trans ordered inside)]
    split <;> rfl
  · rw [if_neg skipped, dif_neg skipped]
    by_cases empty : m.stop = 0
    · rw [if_pos empty, dif_pos empty]
      rfl
    · rw [if_neg empty, dif_neg empty, front _ inside]
      cases l.lexicon.classify m with
      | none => rfl
      | some role => cases role <;> rfl

/-- At the end of the stream a lexer acts on the final verdict. -/
theorem step_of_exhausted (exhausted : l.window.exhausted = true)
    (nonempty : 0 < l.window.filled.length) :
    l.step = l.act (l.lexicon.finalVerdict l.window.filled nonempty) := by
  have view : l.view = l.window.filled := by simp [Lexer.view, exhausted]
  simp only [step, view, Lexicon.finalVerdict]
  cases found : l.lexicon.master.search? l.window.filled with
  | some m =>
    obtain ⟨ordered, inside⟩ := Pattern.Compiled.bounds_of_search? found
    exact stepAt_eq_act (fun _ _ => rfl) ordered inside fun _ => exhausted
  | none =>
    simp only [exhausted, Bool.not_true, Bool.false_eq_true, if_false]
    split
    · simp only [act, Role.result?, invalid, List.take_length]
    · rfl

/-- Before the end of the stream a lexer acts on the verdict so far, or
reads. -/
theorem step_of_going (going : l.window.exhausted = false) :
    l.step = match l.lexicon.verdictSoFar? l.window.filled with
      | some v => l.act v
      | none => .refill := by
  have view : l.view = Text.complete l.window.filled := by
    simp [Lexer.view, going, Text.complete]
  simp only [step, view, Lexicon.verdictSoFar?]
  cases found : l.lexicon.master.search? (Text.complete l.window.filled) with
  | none => simp [going]
  | some m =>
    obtain ⟨ordered, inside⟩ := Pattern.Compiled.bounds_of_search? found
    by_cases reaches : m.stop = (Text.complete l.window.filled).length
    · simp [stepAt, reaches, going]
    · simp only [reaches, if_false]
      refine stepAt_eq_act (fun n le => ?_) ordered inside (absurd · reaches)
      rw [Text.complete, List.take_take, Nat.min_eq_left]
      exact Nat.le_trans le (List.length_take_le _ _)

/-- A lexer that acts on a verdict gives its results and, behind a piece, those
of the lexer that is done with it. -/
theorem results_of_act {v : Verdict}
    {rest : Position → List UInt8 → List LexResult} (awake : l.state.Awake)
    (nonempty : l.window.isEmpty = false) (step : l.step = l.act v)
    (later : ∀ length role pos, v = .piece length role pos → ∀ limit,
      (l.pastPiece length role).results limit
        = ((rest (l.pastPiece length role).position
          (l.pastPiece length role).window.filled).take limit).map
            some)
    (limit : Nat) :
    l.results limit
      = ((v.results l.position l.window.filled rest).take limit).map some := by
  cases v with
  | unmatchable =>
    cases limit with
    | zero => rfl
    | succ limit =>
      rw [results_of_finish awake nonempty step]
      simp [Verdict.results, unmatchable, unmatchableAt,
        LexResult.isLast, LexError.isRecoverable]
  | piece length role pos =>
    have others := later length role pos rfl
    simp only [pastPiece] at others
    simp only [act] at step
    simp only [Verdict.results]
    cases gives : role.result? l.position (l.window.filled.take length) with
    | none =>
      rw [gives] at step others
      rw [results_of_skip awake nonempty step]
      exact others limit
    | some r =>
      rw [gives] at step others
      cases limit with
      | zero => rfl
      | succ limit =>
        rw [results_of_finish awake nonempty step, isLast_of_result? gives]
        exact congrArg (some r :: ·) (others limit)

/-! ## Whole scans -/

/-- At the end of the stream a lexer gives what there is to find in its
window. -/
theorem results_of_exhausted (awake : l.state.Awake)
    (exhausted : l.window.exhausted = true) (limit : Nat) :
    l.results limit = ((l.lexicon.lexWhole l.position l.window.filled).take
      limit).map some := by
  -- every piece makes the window shorter
  induction length : l.window.filled.length using Nat.strongRecOn
      generalizing l limit with
  | ind size ih =>
    cases bytes : l.window.filled with
    | nil =>
      cases limit with
      | zero => rfl
      | succ limit =>
        rw [results_of_end awake (by simp [Window.isEmpty, bytes]) exhausted,
          Lexicon.lexWhole_nil]
        simp
    | cons b others =>
      have nonempty : 0 < l.window.filled.length := by simp [bytes]
      rw [← bytes, Lexicon.lexWhole_of_pos nonempty]
      refine results_of_act awake (by simp [Window.isEmpty, bytes])
        (step_of_exhausted exhausted nonempty)
        (fun length role pos _ limit => ?_) limit
      refine ih _ ?_ (awake_pastPiece awake length role) exhausted limit rfl
      simp only [pastPiece, consume, Window.consume, List.length_drop]
      omega

/-- A lexer whose source delivers its input gives what the contents of some
reads of it bring about: reads that are offered the room that its window grows
by, at least. -/
theorem exists_reads {input : List UInt8} (awake : l.state.Awake)
    (going : l.window.exhausted = false) (fits : l.window.Fits)
    (delivers : l.source.delivered = some input) :
    ∃ reads, l.source.ReadsAs l.window.growth reads ∧ ∀ limit,
      l.results limit = ((l.lexicon.lexReads l.position
        l.window.filled reads).take limit).map some := by
  -- a read takes from the source and a piece from the window, so the weight
  -- goes down either way
  induction weight : l.weight using Nat.strongRecOn generalizing l input with
  | ind size ih =>
    subst weight
    cases decided : l.lexicon.verdictSoFar? l.window.filled with
    | none =>
      have awake' : (l.filled (l.window.fill l.source)).state.Awake := trivial
      have refills : l.Refills :=
        ⟨going, .inr (by rw [step_of_going going, decided])⟩
      obtain ⟨content, fetches, ⟨rfl, rfl⟩
        | ⟨nonempty, later, delivers', rfl⟩⟩ := fits.fetches delivers
      · -- the stream has ended, and the window holds all that is left of it
        obtain ⟨space, enough, read⟩ := fetches.read
        refine ⟨[], .done enough read, fun limit => ?_⟩
        have filled : (l.filled (l.window.fill l.source)).window.filled
            = l.window.filled := by
          rw [Lexer.filled, fetches.filled, List.append_nil]
        have exhausted : (l.filled (l.window.fill l.source)).window.exhausted
            = true := by
          rw [Lexer.filled, fetches.exhausted]
          exact Bool.or_true _
        rw [results_of_refills awake refills fetches.outcome,
          results_of_exhausted awake' exhausted, filled,
          Lexicon.lexReads_nil decided]
        rfl
      · obtain ⟨space, enough, read⟩ := fetches.read
        have more : (l.filled (l.window.fill l.source)).window.exhausted
            = false := by
          rw [Lexer.filled, fetches.exhausted, going]
          cases content with
          | nil => exact absurd rfl nonempty
          | cons b bytes => rfl
        have lighter := weight_filled_lt going fetches.outcome
        obtain ⟨reads, brings, same⟩ :=
          ih _ lighter awake' more fetches.fits delivers' rfl
        rw [Lexer.filled, fetches.growth] at brings
        refine ⟨content :: reads, .more enough read nonempty brings,
          fun limit => ?_⟩
        rw [results_of_refills awake refills fetches.outcome, same limit,
          Lexicon.lexReads_cons decided, ← fetches.filled]
        rfl
    | some v =>
      have nonempty : l.window.isEmpty = false := by
        cases bytes : l.window.filled with
        | nil => rw [bytes, Lexicon.verdictSoFar?_nil] at decided; cases decided
        | cons b others => simp [Window.isEmpty, bytes]
      have step : l.step = l.act v := by rw [step_of_going going, decided]
      simp only [Lexicon.lexReads_of_verdict decided]
      cases v with
      | unmatchable =>
        obtain ⟨reads, brings⟩ :=
          Source.ReadsAs.exists_of_delivered l.window.growth delivers
        exact ⟨reads, brings, results_of_act awake nonempty step
          fun _ _ _ eq => by cases eq⟩
      | piece length role pos =>
        have lighter : (l.pastPiece length role).weight < l.weight :=
          weight_consume_lt nonempty pos
        obtain ⟨reads, brings, same⟩ :=
          ih _ lighter (awake_pastPiece awake length role) going
            (fits.consume length) delivers rfl
        refine ⟨reads, brings, results_of_act awake nonempty step ?_⟩
        intro _ _ _ eq
        cases eq
        exact same

/-- From the start, a lexer gives what the contents of some reads bring
about. -/
theorem exists_reads_new (c : Lexicon) {source : Source} {input : List UInt8}
    (bufferSize : Nat) (delivers : source.delivered = some input) :
    ∃ reads, source.ReadsAs (Window.new bufferSize).growth reads ∧ ∀ limit,
      (new c source bufferSize).results limit
      = ((c.lexReads .start [] reads).take limit).map some :=
  exists_reads (l := new c source bufferSize) trivial rfl
    (Window.fits_new bufferSize) delivers

/-- In a window with room for them chunks are read one by one. -/
theorem results_of_chunks (c : Lexicon) {chunks : List (List UInt8)}
    {bufferSize : Nat} (fit : ∀ chunk ∈ chunks, chunk ≠ [] ∧
      chunk.length ≤ (Window.new bufferSize).growth) (limit : Nat) :
    (new c (chunks.map .bytes) bufferSize).results limit
      = ((c.lexReads .start [] chunks).take limit).map some := by
  have delivers := Source.delivered_chunks fun chunk mem => (fit chunk mem).1
  obtain ⟨reads, brings, same⟩ := exists_reads_new c bufferSize delivers
  rw [same limit, brings.eq_of_fitting fit]

end Lexer

end Lexigram
