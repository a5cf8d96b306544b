import Lexigram.Proofs.Stream.Finality

/-!
The pieces that a run consumes. Each pass of a scan takes one piece off the
window, or none, so the pieces can be computed beside the results: white space,
and behind it the piece that the result is for (`Stands`).
-/

namespace Lexigram

/-- What the bytes of a result are taken for; a last result is for none. -/
def LexResult.role? : LexResult → Option Role
  | .ok token => some (.token token.kind)
  | .error (.invalidToken _ _) => some .error
  | .error _ => none

namespace LexResult

theorem role?_of_result? {role : Role} {p : Position} {bytes : List UInt8}
    {r : LexResult} (gives : role.result? p bytes = some r) :
    r.role? = some role := by
  cases role <;> cases gives <;> rfl

theorem role?_of_isLast {r : LexResult} (last : r.isLast = true) :
    r.role? = none := by
  cases r with
  | ok token => cases last
  | error e =>
    cases e with
    | invalidToken p text => cases last
    | endOfStream => rfl
    | unmatchable p snippet => rfl
    | readFailed f => rfl
    | workerLost => rfl

end LexResult

/-! ## White space, and a result -/

/-- `Stands p pieces result`: pieces at `p` are white space, and behind it the
piece that the result is for, unless it is a last one. -/
inductive Stands :
    (p : Position) → List Piece → (result : Option LexResult) → Prop where
  | last {p : Position} {result : Option LexResult}
      (final : ∀ r, result = some r → r.isLast = true) :
      Stands p [] result
  | piece {p : Position} {role : Role} {bytes : List UInt8} {r : LexResult}
      (gives : role.result? p bytes = some r) :
      Stands p [⟨role, bytes⟩] (some r)
  | space {p : Position} {bytes : List UInt8} {pieces : List Piece}
      {result : Option LexResult} (more : Stands (p.past bytes) pieces result) :
      Stands p (⟨.whitespace, bytes⟩ :: pieces) result

namespace Stands

variable {p : Position} {pieces : List Piece}

/-- In front of a last result there is white space and nothing else. -/
theorem forall_whitespace {result : Option LexResult}
    (h : Stands p pieces result)
    (last : ∀ r, result = some r → r.isLast = true) :
    ∀ piece ∈ pieces, piece.role = .whitespace := by
  induction h with
  | last _ => exact List.forall_mem_nil _
  | piece gives => cases (Lexer.isLast_of_result? gives).symm.trans (last _ rfl)
  | space _ ih => exact List.forall_mem_cons.mpr ⟨rfl, ih last⟩

/-- An invalid token is the last of the pieces, and its position is in front of
it. -/
theorem exists_invalid {q : Position} {text : String}
    (h : Stands p pieces (some (.error (.invalidToken q text)))) :
    ∃ front bytes, pieces = front ++ [⟨.error, bytes⟩] ∧
      q = Piece.past p front ∧ text = Text.lossy bytes := by
  generalize gives : some (Except.error (LexError.invalidToken q text))
    = result at h
  induction h with
  | last final => cases final _ gives.symm
  | @piece p role bytes r here =>
    cases gives
    cases role <;> cases here
    exact ⟨[], bytes, rfl, rfl, rfl⟩
  | @space p bytes pieces result _ ih =>
    obtain ⟨front, last, rfl, place, same⟩ := ih gives
    exact ⟨⟨.whitespace, bytes⟩ :: front, last, rfl, place, same⟩

/-- The results of the pieces are the result they stand for. -/
theorem results_eq {result : Option LexResult} (h : Stands p pieces result) :
    Piece.results p pieces = Lexer.tokenResults [result] := by
  induction h with
  | @last p result final =>
    cases result with
    | none => rfl
    | some r => simp [Piece.results, Lexer.tokenResults, final]
  | piece gives =>
    simp [Piece.results, gives, Lexer.tokenResults,
      Lexer.isLast_of_result? gives]
  | space _ ih => rw [← ih]; rfl

end Stands

namespace Lexer

variable {l : Lexer}

/-! ## The pieces of a run -/

/-- The pieces that the first pass of a scan consumes, one at most. -/
def passPieces (l : Lexer) : List Piece :=
  if l.window.isEmpty then []
  else
    match l.step with
    | .refill => []
    | .skip length => [⟨.whitespace, l.window.filled.take length⟩]
    | .finish length result =>
      (result.role?.map (⟨·, l.window.filled.take length⟩)).toList

/-- The pieces that a scan consumes. -/
def scanPieces (l : Lexer) : List Piece :=
  l.passPieces ++
    match h : l.pass with
    | .more l' _ =>
      have := weight_lt_of_pass h
      l'.scanPieces
    | .done _ => []
termination_by l.weight

/-- The pieces that a request consumes. -/
def nextPieces (l : Lexer) : List Piece :=
  match l.state with
  | .endOfStream => []
  | .fatalError _ => []
  | _ => l.scanPieces

/-- The pieces that `n` requests in a row consume. -/
def requestPieces (l : Lexer) : (n : Nat) → List Piece
  | 0 => []
  | n + 1 => l.nextPieces ++ l.next.lexer.requestPieces n

theorem scanPieces_of_more {l' : Lexer} {trace : Trace}
    (h : l.pass = .more l' trace) :
    l.scanPieces = l.passPieces ++ l'.scanPieces := by
  rw [scanPieces]
  split <;> simp_all

theorem scanPieces_of_done {turn : Turn} (h : l.pass = .done turn) :
    l.scanPieces = l.passPieces := by
  rw [scanPieces]
  split <;> simp_all

theorem passPieces_of_skip {length : Nat} (nonempty : l.window.isEmpty = false)
    (step : l.step = .skip length) :
    l.passPieces = [⟨.whitespace, l.window.filled.take length⟩] := by
  rw [passPieces, if_neg (by simp [nonempty]), step]

theorem passPieces_of_finish {length : Nat} {r : LexResult}
    (nonempty : l.window.isEmpty = false) (step : l.step = .finish length r) :
    l.passPieces = (r.role?.map (⟨·, l.window.filled.take length⟩)).toList := by
  rw [passPieces, if_neg (by simp [nonempty]), step]

theorem passPieces_of_refills (h : l.Refills) : l.passPieces = [] := by
  rw [passPieces]
  obtain empty | step := h.2
  · rw [if_pos empty]
  · rw [step]
    split <;> rfl

/-! ## What they are -/

/-- Whether the pieces are what a turn consumes, and it is told where the bytes
are that nothing matches. -/
structure Consumes (l : Lexer) (pieces : List Piece) (turn : Turn) : Prop where
  accounts : l.Accounts turn.trace.reads pieces turn.lexer
  stands : Stands l.position pieces turn.result
  unmatched : ∀ p snippet, turn.result
    = some (.error (.unmatchable p snippet)) →
    turn.result = some turn.lexer.unmatchable

/-- A last result that is not for unmatchable input is for no piece. -/
theorem Consumes.of_accounts {turn : Turn}
    (accounts : l.Accounts turn.trace.reads [] turn.lexer)
    (last : ∀ r, turn.result = some r → r.isLast = true) (other : ∀ p snippet,
      turn.result ≠ some (.error (.unmatchable p snippet))) :
    l.Consumes [] turn :=
  ⟨accounts, .last last, fun p snippet gives => absurd gives (other p snippet)⟩

/-- Filling the window consumes nothing. -/
theorem consumes_refill {turn : Turn} (h : l.refill = .done turn) :
    l.Consumes [] turn := by
  rw [refill] at h
  cases outcome : (l.window.fill l.source).outcome with
  | read count => rw [outcome] at h; cases h
  | failure f =>
    rw [outcome] at h
    cases h
    refine .of_accounts (.filled l) ?_ (by simp)
    intro r gives
    cases gives
    rfl
  | death =>
    rw [outcome] at h
    cases h
    exact .of_accounts (.filled l) (by simp) (by simp)

/-- A pass that is not the last consumes white space or nothing, and so the
pieces that come behind are told. -/
theorem Consumes.behind {l' : Lexer} {trace : Trace}
    {pieces : List Piece} {turn : Turn} (pass : l.pass = .more l' trace)
    (h : l'.Consumes pieces turn) :
    l.Consumes (l.passPieces ++ pieces) (turn.behind trace) := by
  obtain ⟨refills, filling⟩ | ⟨length, nonempty, step, skips⟩
    | ⟨_, _, -, -, finishes⟩ | ⟨-, -, ends⟩ := l.pass_cases
  · obtain ⟨-, rfl, rfl⟩ := refill_eq_more (filling.symm.trans pass)
    rw [passPieces_of_refills refills]
    exact ⟨(Accounts.filled l).trans h.accounts, h.stands, h.unmatched⟩
  · cases skips.symm.trans pass
    rw [passPieces_of_skip nonempty step]
    exact ⟨(Accounts.consume (judged_of_skip nonempty step)).trans h.accounts,
      .space h.stands, h.unmatched⟩
  · cases finishes.symm.trans pass
  · cases ends.symm.trans pass

theorem consumes_finish {length : Nat} {r : LexResult}
    {records : List LogRecord} (nonempty : l.window.isEmpty = false)
    (step : l.step = .finish length r) :
    l.Consumes l.passPieces ⟨l.consume length, some r, ⟨[], records⟩⟩ := by
  rw [passPieces_of_finish nonempty step]
  obtain ⟨last, rfl, -⟩ | ⟨-, role, gives, judged⟩ :=
    judged_of_finish nonempty step
  · rw [LexResult.role?_of_isLast last]
    refine ⟨.consume_zero l, .last (by simpa using last),
      fun p snippet gives => ?_⟩
    obtain ⟨v, acts, -⟩ := exists_verdict nonempty (by rw [step]; nofun)
    cases v with
    | unmatchable =>
      rw [step] at acts
      cases acts
      simp [unmatchable, consume, Window.consume,
        Position.past, Text.decodeLossy]
    | piece n role pos =>
      simp only [step, act] at acts
      split at acts
      · next here =>
        cases acts
        cases (isLast_of_result? here).symm.trans last
      · cases acts
  · rw [LexResult.role?_of_result? gives]
    refine ⟨.consume judged, .piece gives, fun p snippet unmatched => ?_⟩
    cases unmatched
    cases role <;> cases gives

/-- The last pass consumes the piece of the result, if there is one. -/
theorem consumes_pass {turn : Turn} (pass : l.pass = .done turn) :
    l.Consumes l.passPieces turn := by
  obtain ⟨refills, filling⟩ | ⟨_, -, -, skips⟩
      | ⟨length, r, nonempty, step, finishes⟩ | ⟨empty, -, ends⟩ :=
    l.pass_cases
  · rw [passPieces_of_refills refills]
    exact consumes_refill (filling.symm.trans pass)
  · cases skips.symm.trans pass
  · cases finishes.symm.trans pass
    exact consumes_finish nonempty step
  · cases ends.symm.trans pass
    rw [passPieces, if_pos empty]
    refine .of_accounts (.refl l) ?_ (by simp)
    intro r gives
    cases gives
    rfl

/-- A scan consumes its pieces. -/
theorem consumes_scan (l : Lexer) : l.Consumes l.scanPieces l.scan := by
  refine pass_induction (motive := fun l turn => l.Consumes l.scanPieces turn)
    ?more ?done l
  case more =>
    intro l l' trace pass ih
    rw [scanPieces_of_more pass]
    exact ih.behind pass
  case done =>
    intro l turn pass
    rw [scanPieces_of_done pass]
    exact consumes_pass pass

/-- Whether input that was said to be unmatchable is where the error said. -/
def Located (l : Lexer) : Prop :=
  ∀ p snippet, l.state = .fatalError (.unmatchable p snippet) →
    .error (.unmatchable p snippet) = l.unmatchable

theorem located_of_awake (awake : l.state.Awake) : l.Located := by
  intro p snippet fatal
  rw [fatal] at awake
  exact awake.elim

theorem located_new (c : Lexicon) (source : Source) (bufferSize : Nat) :
    (new c source bufferSize).Located :=
  located_of_awake trivial

theorem nextPieces_of_awake (awake : l.state.Awake) :
    l.nextPieces = l.scanPieces := by
  rw [nextPieces]
  split
  · next state => rw [state] at awake; exact awake.elim
  · next state => rw [state] at awake; exact awake.elim
  · rfl

/-- A lexer that has given its last result consumes no more. -/
theorem nextPieces_of_not_awake (asleep : ¬ l.state.Awake) :
    l.nextPieces = [] := by
  obtain state | ⟨cause, state⟩ := LexerState.cases_of_not_awake asleep
  · rw [nextPieces, state]
  · rw [nextPieces, state]

theorem exists_next_of_not_awake (settled : l.Settled)
    (asleep : ¬ l.state.Awake) :
    ∃ r : LexResult, r.isLast = true ∧ l.state = .after r ∧
      l.next = ⟨l, some r, .empty⟩ := by
  obtain ⟨e, stays, state⟩ := next_of_not_awake asleep
  have after := state_next settled (r := .error e) (by rw [stays])
  rw [stays] at after
  refine ⟨.error e, ?_, after, stays⟩
  obtain ⟨-, rfl⟩ | state := state
  · rfl
  · simp [LexResult.isLast, (settled.fatal e state).1]

/-- A request consumes its pieces. -/
theorem consumes_next (settled : l.Settled) (located : l.Located) :
    l.Consumes l.nextPieces l.next := by
  by_cases awake : l.state.Awake
  · obtain ⟨accounts, stands, unmatched⟩ := consumes_scan l
    rw [nextPieces_of_awake awake, next_of_awake awake]
    cases gives : l.scan.result with
    | none => exact ⟨accounts, stands, unmatched⟩
    | some r => exact ⟨accounts.withState _, stands, unmatched⟩
  · obtain ⟨r, last, state, stays⟩ := exists_next_of_not_awake settled awake
    rw [nextPieces_of_not_awake awake, stays]
    refine ⟨.refl l, .last (by simpa using last), fun p snippet gives => ?_⟩
    cases gives
    exact congrArg some (located p snippet state)

theorem located_next (settled : l.Settled) (located : l.Located) :
    l.next.lexer.Located := by
  cases gives : l.next.result with
  | none =>
    -- the source has ended its thread, which leaves the lexer at a read
    by_cases awake : l.state.Awake
    · have lost : l.scan.result = none := by
        rw [next_of_awake awake] at gives
        split at gives
        · next scanned => exact scanned ▸ gives
        · next scanned => exact scanned
      apply located_of_awake
      rw [next_of_awake awake, lost]
      show l.scan.lexer.state.Awake
      rw [state_of_scan_result_none lost]
      trivial
    · obtain ⟨r, -, -, stays⟩ := exists_next_of_not_awake settled awake
      rw [stays] at gives
      cases gives
  | some r =>
    intro p snippet fatal
    have told := (consumes_next settled located).unmatched p snippet
    rw [state_next settled gives] at fatal
    rw [gives] at told
    cases r with
    | ok token => cases fatal
    | error e =>
      cases e with
      | unmatchable q text =>
        cases fatal
        exact Option.some.inj (told rfl)
      | endOfStream => cases fatal
      | invalidToken q text => cases fatal
      | readFailed f => cases fatal
      | workerLost => cases fatal

/-- Requests consume their pieces, and give the results of these. -/
theorem accounts_requests (settled : l.Settled) (located : l.Located)
    (n : Nat) :
    l.Accounts ((l.requests n).flatMap (·.trace.reads)) (l.requestPieces n)
      (l.afterRequests n)
      ∧ Piece.results l.position (l.requestPieces n)
      = tokenResults ((l.requests n).map (·.result))
      ∧ (l.afterRequests n).Located := by
  induction n generalizing l with
  | zero => exact ⟨.refl l, rfl, located⟩
  | succ n ih =>
    have first := consumes_next settled located
    obtain ⟨others, results, still⟩ :=
      ih (settled_next settled) (located_next settled located)
    refine ⟨first.accounts.trans others, ?_, still⟩
    rw [requestPieces, Piece.results_append, first.stands.results_eq,
      ← first.accounts.position, results, ← tokenResults_append]
    rfl

theorem requestPieces_succ (l : Lexer) (n : Nat) :
    l.requestPieces (n + 1) = l.requestPieces n
      ++ (l.afterRequests n).nextPieces := by
  induction n generalizing l with
  | zero => simp [requestPieces, afterRequests]
  | succ n ih =>
    rw [requestPieces, ih, requestPieces, List.append_assoc, afterRequests]

end Lexer

end Lexigram
