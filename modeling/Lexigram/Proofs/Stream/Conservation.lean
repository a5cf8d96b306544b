import Lexigram.Proofs.Stream.Simulation

/-!
No byte is lost and none is taken twice. After any number of requests the bytes
that the source has delivered are the pieces consumed so far, in order, and
behind them the bytes in the window. The pieces are those of the tokens and of
the invalid tokens that were given, and the white space passed over in between.
-/

namespace Lexigram

/-! ## What reads deliver -/

namespace Source

/-- `source.Serves reads content rest`: the reads, as they are recorded, take
the source to `rest` and deliver `content`. A read that ends the thread is not
recorded. -/
inductive Serves : Source → List ReadRecord → List UInt8 → Source → Prop where
  | done (source : Source) : Serves source [] [] source
  | bytes {source next rest : Source}
      {space : Nat} {brought content : List UInt8} {reads : List ReadRecord}
      (read : source.read space = (.bytes brought, next))
      (more : Serves next reads content rest) :
      Serves source (⟨space, .ok brought.length⟩ :: reads)
        (brought ++ content) rest
  | failure {source next rest : Source}
      {space : Nat} {f : ReadFailure} {content : List UInt8}
      {reads : List ReadRecord} (read : source.read space = (.failure f, next))
      (more : Serves next reads content rest) :
      Serves source (⟨space, .error f.kind⟩ :: reads) content rest
  | death {source next rest : Source} {space : Nat} {content : List UInt8}
      {reads : List ReadRecord} (read : source.read space = (.death, next))
      (more : Serves next reads content rest) :
      Serves source reads content rest

theorem Serves.append {source next rest : Source} {reads more : List ReadRecord}
    {content behind : List UInt8} (first : source.Serves reads content next)
    (second : next.Serves more behind rest) :
    source.Serves (reads ++ more) (content ++ behind) rest := by
  induction first with
  | done _ => exact second
  | bytes read _ ih =>
    rw [List.append_assoc]
    exact .bytes read (ih second)
  | failure read _ ih => exact .failure read (ih second)
  | death read _ ih => exact .death read (ih second)

/-- Interrupted attempts deliver nothing, and the outcome is that of a single
read behind them. -/
theorem serves_of_readPatiently {source rest : Source}
    {space : Nat} {attempts : List ReadRecord} {served : Served}
    (patient : source.readPatiently space = (attempts, served, rest)) :
    ∃ next, source.Serves attempts [] next ∧
      next.read space = (served, rest) := by
  fun_induction readPatiently space source generalizing attempts with
  | case1 message others reads outcome inner ih =>
    cases patient
    obtain ⟨next, serves, read⟩ := ih inner
    exact ⟨next, .failure (f := ⟨.interrupted, message⟩) rfl serves, read⟩
  | case2 source interrupted =>
    simp only [Prod.mk.injEq] at patient
    obtain ⟨rfl, read⟩ := patient
    exact ⟨source, .done source, read⟩

end Source

/-- Filling a window adds what the recorded reads deliver to its bytes. -/
theorem Window.serves_fill (w : Window) (source : Source) :
    ∃ content,
      source.Serves (w.fill source).reads content (w.fill source).source
      ∧ (w.fill source).window.filled = w.filled ++ content := by
  simp only [fill]
  split
  · next attempts content rest patient =>
    obtain ⟨next, serves, read⟩ := Source.serves_of_readPatiently patient
    refine ⟨content, ?_, rfl⟩
    simpa using serves.append (.bytes read (.done rest))
  · next attempts f rest patient =>
    obtain ⟨next, serves, read⟩ := Source.serves_of_readPatiently patient
    exact ⟨[], serves.append (.failure read (.done rest)),
      (List.append_nil _).symm⟩
  · next attempts rest patient =>
    obtain ⟨next, serves, read⟩ := Source.serves_of_readPatiently patient
    refine ⟨[], ?_, (List.append_nil _).symm⟩
    simpa using serves.append (.death read (.done rest))

/-! ## Pieces -/

/-- Bytes that were consumed in one step, and what they were taken for. -/
structure Piece where
  role : Role
  bytes : List UInt8
  deriving Repr, DecidableEq

namespace Piece

/-- The bytes of pieces, one behind the other. -/
def content (pieces : List Piece) : List UInt8 :=
  pieces.flatMap (·.bytes)

/-- The position behind pieces that stand at `p`. -/
def past (p : Position) (pieces : List Piece) : Position :=
  pieces.foldl (fun p piece => p.past piece.bytes) p

/-- The results for pieces that stand at `p`: one for each, but none for white
space. -/
def results (p : Position) : List Piece → List LexResult
  | [] => []
  | piece :: pieces =>
    (piece.role.result? p piece.bytes).toList
      ++ results (p.past piece.bytes) pieces

/-- Whether `piece` can be consumed with this lexicon: it has some bytes, and if
it is white space it is a match for white space in some text, from its start
on. -/
def Admissible (c : Lexicon) (piece : Piece) : Prop :=
  piece.bytes ≠ []
    ∧ (piece.role = .whitespace → ∃ text m, c.master.search? text = some m
      ∧ m.start = 0 ∧ c.classify m = some .whitespace
      ∧ piece.bytes = text.take m.stop)

/-- Whether `piece` is what this lexicon judges its bytes to be: it has some,
and if it is not in error it is a match for its role in some text, from its
start on. -/
def Judged (c : Lexicon) (piece : Piece) : Prop :=
  piece.bytes ≠ []
    ∧ (piece.role ≠ .error → ∃ text m, c.master.search? text = some m
      ∧ m.start = 0 ∧ c.classify m = some piece.role
      ∧ piece.bytes = text.take m.stop)

theorem Judged.admissible {c : Lexicon} {piece : Piece}
    (judged : piece.Judged c) : piece.Admissible c := by
  refine ⟨judged.1, fun white => ?_⟩
  have found := judged.2 (by rw [white]; nofun)
  rwa [white] at found

@[simp] theorem content_append (pieces more : List Piece) :
    content (pieces ++ more) = content pieces ++ content more :=
  List.flatMap_append

@[simp] theorem past_append (p : Position) (pieces more : List Piece) :
    past p (pieces ++ more) = past (past p pieces) more :=
  List.foldl_append

theorem results_append (p : Position) (pieces more : List Piece) :
    results p (pieces ++ more) = results p pieces
      ++ results (past p pieces) more := by
  induction pieces generalizing p with
  | nil => rfl
  | cons piece pieces ih =>
    simp only [List.cons_append, results, ih, List.append_assoc,
      past, List.foldl_cons]

/-- The offset counts the bytes of the pieces. -/
theorem offset_past (p : Position) (pieces : List Piece) :
    (past p pieces).offset = p.offset + (content pieces).length := by
  induction pieces generalizing p with
  | nil => rfl
  | cons piece pieces ih =>
    show (past (p.past piece.bytes) pieces).offset = _
    rw [ih]
    simp only [Position.past, content, List.flatMap_cons, List.length_append]
    omega

end Piece

/-! ## Steps take pieces -/

namespace Lexicon

variable {c : Lexicon} {length : Nat} {pos : 0 < length}

/-- A piece in a verdict that is not in error is a match for its role at the
front. -/
theorem match_of_verdict {m : Pattern.Match} {role : Role}
    (other : role ≠ .error) (judged : c.verdict m = .piece length role pos) :
    m.start = 0 ∧ m.stop = length ∧ c.classify m = some role := by
  simp only [verdict] at judged
  split at judged
  · split at judged
    · cases judged
      exact absurd rfl other
    · cases judged
  · next skipped =>
    split at judged
    · cases judged
    · split at judged
      · next role named =>
        cases judged
        exact ⟨Nat.eq_zero_of_not_pos skipped, rfl, named⟩
      · cases judged

end Lexicon

namespace Lexer

variable {l : Lexer}

/-- Where a lexer does not read, it acts on a verdict, of which a piece at the
front of the window is what it is judged to be. -/
theorem exists_verdict (nonempty : l.window.isEmpty = false)
    (settled : l.step ≠ .refill) :
    ∃ v, l.step = l.act v ∧ ∀ length role pos, v = .piece length role pos →
      length ≤ l.window.filled.length
      ∧ Piece.Judged l.lexicon ⟨role, l.window.filled.take length⟩ := by
  have some : 0 < l.window.filled.length := by
    rw [List.length_pos_iff]
    simpa [Window.isEmpty] using nonempty
  have front {length : Nat} (pos : 0 < length) : l.window.filled.take length
      ≠ [] := by
    rw [← List.length_pos_iff, List.length_take]
    omega
  cases exhausted : l.window.exhausted with
  | true =>
    refine ⟨_, step_of_exhausted exhausted some,
      fun length role pos judged => ?_⟩
    simp only [Lexicon.finalVerdict] at judged
    split at judged
    · next m found =>
      obtain ⟨ordered, inside⟩ := Pattern.Compiled.bounds_of_search? found
      refine ⟨Nat.le_trans (Lexicon.length_le_of_verdict ordered judged) inside,
        front pos, fun other => ?_⟩
      obtain ⟨start, rfl, named⟩ := Lexicon.match_of_verdict other judged
      exact ⟨_, m, found, start, named, rfl⟩
    · split at judged
      · cases judged
        exact ⟨Nat.le_refl _, front pos, fun other => absurd rfl other⟩
      · cases judged
  | false =>
    have step := step_of_going exhausted
    cases decided : l.lexicon.verdictSoFar? l.window.filled with
    | none =>
      rw [decided] at step
      exact absurd step settled
    | some v =>
      rw [decided] at step
      refine ⟨v, step, fun length role pos judged => ?_⟩
      subst judged
      refine ⟨Lexicon.length_le_of_verdictSoFar? decided, front pos,
        fun other => ?_⟩
      obtain ⟨m, found, inside, judged⟩ :=
        Lexicon.verdictSoFar?_eq_some.mp decided
      obtain ⟨start, rfl, named⟩ := Lexicon.match_of_verdict other judged
      refine ⟨_, m, found, start, named, ?_⟩
      rw [Text.complete, List.take_take, Nat.min_eq_left]
      exact Nat.le_trans (Nat.le_of_lt inside) (List.length_take_le _ _)

/-- Passing over bytes takes one piece, white space. -/
theorem judged_of_skip {length : Nat} (nonempty : l.window.isEmpty = false)
    (step : l.step = .skip length) :
    Piece.Judged l.lexicon ⟨.whitespace, l.window.filled.take length⟩ := by
  obtain ⟨v, acts, judged⟩ := exists_verdict nonempty (by rw [step]; nofun)
  rw [step] at acts
  cases v with
  | unmatchable => cases acts
  | piece n role pos =>
    cases role with
    | whitespace =>
      cases acts
      exact (judged _ _ _ rfl).2
    | token kind => cases acts
    | error => cases acts

/-- A step with a result takes one piece, that of the result, or none if the
result is the last. -/
theorem judged_of_finish {length : Nat} {r : LexResult}
    (nonempty : l.window.isEmpty = false) (step : l.step = .finish length r) :
    (r.isLast = true ∧ length = 0 ∧ r ≠ .error .endOfStream) ∨ r.isLast = false
      ∧ ∃ role, role.result? l.position (l.window.filled.take length) = some r
        ∧ Piece.Judged l.lexicon ⟨role, l.window.filled.take length⟩ := by
  obtain ⟨v, acts, judged⟩ := exists_verdict nonempty (by rw [step]; nofun)
  rw [step] at acts
  cases v with
  | unmatchable =>
    cases acts
    exact .inl ⟨rfl, rfl, nofun⟩
  | piece n role pos =>
    simp only [act] at acts
    split at acts
    · next gives =>
      cases acts
      exact .inr ⟨isLast_of_result? gives, role, gives, (judged _ _ _ rfl).2⟩
    · cases acts

/-! ## Scans account for their pieces -/

/-- What a scan comes to that fills the window first. -/
def scanFilled (l : Lexer) : Turn :=
  match (l.window.fill l.source).outcome with
  | .read _ =>
    { (l.filled (l.window.fill l.source)).scan with
      trace := (fillTrace (l.window.fill l.source)).append
        (l.filled (l.window.fill l.source)).scan.trace }
  | .failure f =>
    ⟨l.filled (l.window.fill l.source), some (.error (.readFailed f)),
      fillTrace (l.window.fill l.source)⟩
  | .death =>
    ⟨l.filled (l.window.fill l.source), none,
      fillTrace (l.window.fill l.source)⟩

/-- A scan by the first thing it does. -/
theorem scan_eq (l : Lexer) :
    l.scan = if l.window.isEmpty = false then
        match l.step with
        | .refill => l.scanFilled
        | .skip length => (l.consume length).scan
        | .finish length result =>
          ⟨l.consume length, some result,
            ⟨[], l.stepRecords (.finish length result)⟩⟩
      else if l.window.exhausted = false then l.scanFilled
      else ⟨l, some (.error .endOfStream), .empty⟩ := by
  rw [scan.eq_def]
  by_cases nonempty : l.window.isEmpty = false
  · rw [dif_pos nonempty, if_pos nonempty]
    split
    · next step =>
      dsimp only
      rw [step, scanFilled]
      split <;> simp_all
    · next length step =>
      dsimp only
      rw [step]
    · next length result step => rw [step]
  · rw [dif_neg nonempty, if_neg nonempty]
    by_cases going : l.window.exhausted = false
    · rw [dif_pos going, if_pos going, scanFilled]
      split <;> simp_all
    · rw [dif_neg going, if_neg going]

/-- Induction along a scan: it reads, passes over white space, or ends. -/
theorem scan_induction {motive : Lexer → Turn → Prop} (read : ∀ l : Lexer,
      ∀ count, (l.window.fill l.source).outcome = .read count →
      motive (l.filled (l.window.fill l.source))
      (l.filled (l.window.fill l.source)).scan →
      motive l { (l.filled (l.window.fill l.source)).scan with
        trace := (fillTrace (l.window.fill l.source)).append
          (l.filled (l.window.fill l.source)).scan.trace })
    (failure : ∀ l : Lexer, ∀ f, (l.window.fill l.source).outcome = .failure f →
      motive l ⟨l.filled (l.window.fill l.source),
        some (.error (.readFailed f)),
        fillTrace (l.window.fill l.source)⟩)
    (death : ∀ l : Lexer, (l.window.fill l.source).outcome = .death →
      motive l ⟨l.filled (l.window.fill l.source), none,
        fillTrace (l.window.fill l.source)⟩)
    (skip : ∀ l : Lexer, ∀ length, l.window.isEmpty = false →
      l.step = .skip length →
      motive (l.consume length) (l.consume length).scan →
      motive l (l.consume length).scan)
    (finish : ∀ l : Lexer, ∀ length result, l.window.isEmpty = false →
      l.step = .finish length result →
      motive l ⟨l.consume length, some result,
        ⟨[], l.stepRecords (.finish length result)⟩⟩)
    (stop : ∀ l : Lexer, l.window.isEmpty = true → l.window.exhausted = true →
      motive l ⟨l, some (.error .endOfStream), .empty⟩)
    (l : Lexer) : motive l l.scan := by
  induction weight : l.weight using Nat.strongRecOn generalizing l with
  | ind size ih =>
    subst weight
    have refill (going : l.window.exhausted = false) :
        motive l l.scanFilled := by
      rw [scanFilled]
      cases outcome : (l.window.fill l.source).outcome with
      | read count =>
        exact read l count outcome (ih _ (weight_filled_lt going outcome) _ rfl)
      | failure f => exact failure l f outcome
      | death => exact death l outcome
    rw [scan_eq]
    by_cases nonempty : l.window.isEmpty = false
    · rw [if_pos nonempty]
      split
      · next step => exact refill (exhausted_of_step_eq_refill step)
      · next length step =>
        exact skip l length nonempty step
          (ih _ (weight_consume_lt nonempty (pos_of_step_eq_skip step)) _ rfl)
      · next length result step => exact finish l length result nonempty step
    · rw [if_neg nonempty]
      by_cases going : l.window.exhausted = false
      · rw [if_pos going]
        exact refill going
      · rw [if_neg going]
        exact stop l (by simpa using nonempty) (by simpa using going)

/-- Between `l` and `l'` the recorded reads were made and the pieces consumed,
and nothing else was done to the window and to the position. -/
structure Accounts (l : Lexer) (reads : List ReadRecord) (pieces : List Piece)
    (l' : Lexer) : Prop where
  lexicon : l'.lexicon = l.lexicon
  judged : ∀ piece ∈ pieces, piece.Judged l.lexicon
  position : l'.position = Piece.past l.position pieces
  conserves : ∃ content, l.source.Serves reads content l'.source
    ∧ l.window.filled ++ content = Piece.content pieces ++ l'.window.filled

namespace Accounts

variable {m n : Lexer} {reads more : List ReadRecord}
  {pieces others : List Piece}

theorem admissible (accounts : l.Accounts reads pieces m) :
    ∀ piece ∈ pieces, piece.Admissible l.lexicon :=
  fun piece mem => (accounts.judged piece mem).admissible

theorem refl (l : Lexer) : l.Accounts [] [] l :=
  ⟨rfl, List.forall_mem_nil _, rfl, [], .done _, List.append_nil _⟩

theorem trans (first : l.Accounts reads pieces m)
    (second : m.Accounts more others n) :
    l.Accounts (reads ++ more) (pieces ++ others) n where
  lexicon := second.lexicon.trans first.lexicon
  judged piece mem := by
    rcases List.mem_append.mp mem with mem | mem
    · exact first.judged piece mem
    · exact first.lexicon ▸ second.judged piece mem
  position := by rw [second.position, first.position, Piece.past_append]
  conserves := by
    obtain ⟨content, serves, same⟩ := first.conserves
    obtain ⟨behind, serves', same'⟩ := second.conserves
    refine ⟨content ++ behind, serves.append serves', ?_⟩
    rw [← List.append_assoc, same, List.append_assoc, same',
      Piece.content_append, List.append_assoc]

/-- The state of a lexer is of no account. -/
theorem withState (accounts : l.Accounts reads pieces m) (state : LexerState) :
    l.Accounts reads pieces { m with state } :=
  ⟨accounts.lexicon, accounts.judged, accounts.position, accounts.conserves⟩

/-- Filling the window consumes nothing. -/
theorem filled (l : Lexer) :
    l.Accounts (l.window.fill l.source).reads []
      (l.filled (l.window.fill l.source)) := by
  obtain ⟨content, serves, same⟩ := l.window.serves_fill l.source
  exact ⟨rfl, List.forall_mem_nil _, rfl, content, serves, same.symm⟩

/-- Consuming a piece for what it is judged to be reads nothing. -/
theorem consume {length : Nat} {role : Role}
    (judged : Piece.Judged l.lexicon ⟨role, l.window.filled.take length⟩) :
    l.Accounts [] [⟨role, l.window.filled.take length⟩] (l.consume length) where
  lexicon := rfl
  judged piece mem := List.mem_singleton.mp mem ▸ judged
  position := rfl
  conserves := by
    refine ⟨[], .done _, ?_⟩
    simp [Piece.content, Lexer.consume, Window.consume]

/-- Consuming no bytes is consuming nothing. -/
theorem consume_zero (l : Lexer) : l.Accounts [] [] (l.consume 0) := by
  refine ⟨rfl, List.forall_mem_nil _, ?_, [], .done _, List.append_nil _⟩
  show l.position.past [] = l.position
  simp [Position.past, Text.decodeLossy]

end Accounts

/-- The results that stand for pieces: tokens and invalid tokens. -/
def tokenResults (results : List (Option LexResult)) : List LexResult :=
  results.filterMap id |>.filter (!·.isLast)

theorem tokenResults_append (results more : List (Option LexResult)) :
    tokenResults (results ++ more)
      = tokenResults results ++ tokenResults more := by
  simp [tokenResults]

/-- What a scan reads and consumes is accounted for. Its result stands for the
last of the pieces, if it is for a token, and the others are white space. -/
theorem exists_accounts_scan (l : Lexer) :
    ∃ pieces, l.Accounts l.scan.trace.reads pieces l.scan.lexer
      ∧ Piece.results l.position pieces = tokenResults [l.scan.result]
      ∧ (l.scan.result = some (.error .endOfStream) →
        l.scan.lexer.window.filled = []) := by
  refine scan_induction (motive := fun l turn => ∃ pieces,
    l.Accounts turn.trace.reads pieces turn.lexer
    ∧ Piece.results l.position pieces = tokenResults [turn.result]
    ∧ (turn.result = some (.error .endOfStream) → turn.lexer.window.filled
      = [])) ?read ?failure ?death ?skip ?finish ?stop l
  case read =>
    rintro l count - ⟨pieces, accounts, results, final⟩
    exact ⟨pieces, (Accounts.filled l).trans accounts, results, final⟩
  case failure =>
    intro l f _
    exact ⟨[], .filled l, rfl, nofun⟩
  case death =>
    intro l _
    exact ⟨[], .filled l, rfl, nofun⟩
  case skip =>
    rintro l length nonempty step ⟨pieces, accounts, results, final⟩
    have first := Accounts.consume (judged_of_skip nonempty step)
    exact ⟨_, first.trans accounts, results, final⟩
  case finish =>
    intro l length r nonempty step
    obtain ⟨last, rfl, other⟩ | ⟨more, role, gives, judged⟩ :=
      judged_of_finish nonempty step
    · refine ⟨[], .consume_zero l,
        by simp [tokenResults, last, Piece.results], ?_⟩
      rintro ⟨⟩
      exact absurd rfl other
    · refine ⟨_, .consume judged,
        by simp [tokenResults, more, Piece.results, gives], ?_⟩
      rintro ⟨⟩
      cases more
  case stop =>
    intro l empty _
    exact ⟨[], .refl l, rfl, fun _ => by simpa [Window.isEmpty] using empty⟩

/-- Only filling the window ends without a result. -/
theorem state_of_scan_result_none (lost : l.scan.result = none) :
    l.scan.lexer.state = .awaitingRefill := by
  revert lost
  refine scan_induction (motive := fun _ turn => turn.result = none →
    turn.lexer.state = .awaitingRefill)
    ?read ?failure ?death ?skip ?finish ?stop l
  case read => exact fun _ _ _ ih => ih
  case failure => exact fun _ _ _ => nofun
  case death => exact fun _ _ _ => rfl
  case skip => exact fun _ _ _ _ ih => ih
  case finish => exact fun _ _ _ _ _ => nofun
  case stop => exact fun _ _ _ => nofun

/-! ## Requests -/

/-- Whether the state is that of a lexer at work: at the end of the stream
nothing is left in the window, and a fatal error is one that the lexer does not
go on after. -/
structure Settled (l : Lexer) : Prop where
  drained : l.state = .endOfStream → l.window.filled = []
  fatal : ∀ cause, l.state = .fatalError cause →
    cause.isRecoverable = false ∧ cause ≠ .endOfStream

theorem settled_after {r : LexResult}
    (final : r = .error .endOfStream → l.window.filled = []) :
    Settled { l with state := .after r } := by
  constructor
  · intro ended
    cases r with
    | ok token => cases ended
    | error e =>
      cases e with
      | endOfStream => exact final rfl
      | invalidToken p text => cases ended
      | unmatchable p snippet => cases ended
      | readFailed f => cases ended
      | workerLost => cases ended
  · intro cause failed
    cases r with
    | ok token => cases failed
    | error e =>
      cases e with
      | endOfStream => cases failed
      | invalidToken p text => cases failed
      | unmatchable p snippet => cases failed; exact ⟨rfl, nofun⟩
      | readFailed f => cases failed; exact ⟨rfl, nofun⟩
      | workerLost => cases failed; exact ⟨rfl, nofun⟩

/-- What a request reads and consumes is accounted for, and its result stands
for the last of the pieces. -/
theorem exists_accounts_next (settled : l.Settled) :
    ∃ pieces, l.Accounts l.next.trace.reads pieces l.next.lexer
      ∧ Piece.results l.position pieces = tokenResults [l.next.result]
      ∧ (l.next.result = some (.error .endOfStream) →
        l.next.lexer.window.filled = [])
      ∧ l.next.lexer.Settled := by
  by_cases awake : l.state.Awake
  · obtain ⟨pieces, accounts, results, final⟩ := l.exists_accounts_scan
    rw [next_of_awake awake]
    cases scanned : l.scan.result with
    | some r =>
      exact ⟨pieces, accounts.withState _, results, final,
        settled_after fun eq => final (scanned.trans (congrArg some eq))⟩
    | none =>
      have state := state_of_scan_result_none scanned
      exact ⟨pieces, accounts, results, final, by rw [state]; nofun,
        by rw [state]; nofun⟩
  · obtain ⟨e, stays, state⟩ := next_of_not_awake awake
    rw [stays]
    obtain ⟨state, rfl⟩ | state := state
    · exact ⟨[], .refl l, rfl, fun _ => settled.drained state, settled⟩
    · obtain ⟨last, other⟩ := settled.fatal e state
      refine ⟨[], .refl l, by simp [tokenResults,
        LexResult.isLast, last, Piece.results], fun eq => ?_, settled⟩
      cases eq
      exact absurd rfl other

/-- The turns of `n` requests in a row. -/
def requests (l : Lexer) : (n : Nat) → List Turn
  | 0 => []
  | n + 1 => l.next :: l.next.lexer.requests n

/-- The lexer after `n` requests. -/
def afterRequests (l : Lexer) : (n : Nat) → Lexer
  | 0 => l
  | n + 1 => l.next.lexer.afterRequests n

/-- What any number of requests read and consume is accounted for. Once one of
them has come to the end of the stream nothing is left in the window. -/
theorem exists_accounts_requests (settled : l.Settled) (n : Nat) :
    ∃ pieces, l.Accounts ((l.requests n).flatMap (·.trace.reads)) pieces
      (l.afterRequests n)
      ∧ Piece.results l.position pieces
      = tokenResults ((l.requests n).map (·.result))
      ∧ ((l.requests n).getLast?.bind (·.result) = some (.error .endOfStream) →
        (l.afterRequests n).window.filled = []) := by
  induction n generalizing l with
  | zero => exact ⟨[], .refl l, rfl, nofun⟩
  | succ n ih =>
    obtain ⟨first, accounts, results, final, settled⟩ :=
      exists_accounts_next settled
    obtain ⟨others, accounts', results', final'⟩ := ih settled
    refine ⟨first ++ others, accounts.trans accounts', ?_, ?_⟩
    · rw [Piece.results_append, results, ← accounts.position, results',
        ← tokenResults_append]
      rfl
    · cases n with
      | zero => exact final
      | succ n => simpa [requests, afterRequests] using final'

end Lexer

/-- **No byte is lost or taken twice.** After any number of requests to a lexer
on any source, the bytes that its reads have delivered are the pieces consumed
so far, one behind the other, and then the bytes in the window. There is some
text in every piece; the tokens and invalid tokens given so far are those of the
pieces, in order, each with the text its bytes decode to, and the other pieces
are matches for white space. Once the lexer gives the end of the stream, the
pieces are all that was delivered. -/
theorem Lexer.delivered_eq_pieces (c : Lexicon) (source : Source)
    (bufferSize n : Nat) :
    ∃ pieces : List Piece,
      source.Serves (((new c source bufferSize).requests n).flatMap
        (·.trace.reads))
          (Piece.content pieces ++
            ((new c source bufferSize).afterRequests n).window.filled)
          ((new c source bufferSize).afterRequests n).source
        ∧ (∀ piece ∈ pieces, piece.Admissible c)
        ∧ tokenResults (((new c source bufferSize).requests n).map (·.result))
          = Piece.results .start pieces
        ∧ ((new c source bufferSize).afterRequests n).position
          = Piece.past .start pieces
        ∧ ((new c source bufferSize).afterRequests n).position.offset
          = (Piece.content pieces).length
        ∧ (((new c source bufferSize).requests n).getLast?.bind (·.result)
          = some (.error .endOfStream) →
          ((new c source bufferSize).afterRequests n).window.filled = []) := by
  have settled : (new c source bufferSize).Settled := ⟨nofun, nofun⟩
  obtain ⟨pieces, accounts, results, final⟩ :=
    exists_accounts_requests settled n
  obtain ⟨content, serves, same⟩ := accounts.conserves
  rw [show (new c source bufferSize).window.filled = []
    from rfl, List.nil_append] at same
  have position := accounts.position
  rw [show (new c source bufferSize).position = .start from rfl] at position
  refine ⟨pieces, same ▸ serves, accounts.admissible, results.symm, position,
    ?_, final⟩
  rw [position, Piece.offset_past]
  exact Nat.zero_add _

end Lexigram
