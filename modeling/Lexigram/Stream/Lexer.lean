import Lexigram.Lexis.Lexicon
import Lexigram.Stream.Window

/-!
The lexer. It looks for the lexicon's master pattern in a window on a source,
hands out one token after the other and reads on whenever more input could
change what it found. Texts that only the error pattern matches, or nothing
does, are errors; with a fallback the lexer goes on behind them.
-/

namespace Lexigram

open Pattern (Match)

/-- A place in a stream of bytes: how many bytes are in front, and the place in
the text they decode to. -/
structure Position where
  offset : Nat
  place : Text.Place
  deriving Repr, DecidableEq

namespace Position

/-- Where a stream starts. -/
def start : Position := ⟨0, .start⟩

/-- The position behind bytes that stand at `p`. -/
def past (p : Position) (bytes : List UInt8) : Position :=
  ⟨p.offset + bytes.length, p.place.past (Text.decodeLossy bytes)⟩

end Position

/-- A token of a stream. -/
structure StreamToken where
  kind : TokenKind
  text : String
  deriving Repr, DecidableEq

/-- Why there is no token. -/
inductive LexError where
  | endOfStream
  /-- Input that no rule matches and that has been passed over. -/
  | invalidToken (position : Position) (text : String)
  /-- Input that no rule matches. -/
  | unmatchable (position : Position) (snippet : String)
  | readFailed (f : ReadFailure)
  | workerLost
  deriving Repr, DecidableEq

namespace LexError

/-- Whether the lexer goes on after the error. -/
def isRecoverable : LexError → Bool
  | invalidToken _ _ => true
  | _ => false

/-- The error in words. -/
def message : LexError → String
  | endOfStream => "end of stream"
  | invalidToken p text =>
    "invalid token " ++ Text.quoted text ++ " at " ++ p.place.render
  | unmatchable p snippet =>
    "no token rule matches the input at " ++ p.place.render ++ ", near "
      ++ Text.quoted snippet
  | readFailed _ => "failed to read the input stream"
  | workerLost => "the lexer worker thread stopped without finishing the stream"

end LexError

/-- What one request for a token gives. -/
abbrev LexResult := Except LexError StreamToken

/-- Whether a result is the last: an error that the lexer does not go on
after. -/
def LexResult.isLast : LexResult → Bool
  | .ok _ => false
  | .error e => !e.isRecoverable

/-- What a lexer is doing. -/
inductive LexerState where
  | ready
  | awaitingRefill
  | tokenMatched
  | endOfStream
  | fatalError (cause : LexError)
  deriving Repr, DecidableEq

/-- The state after a result. -/
def LexerState.after : LexResult → LexerState
  | .ok _ => .tokenMatched
  | .error .endOfStream => .endOfStream
  | .error e => if e.isRecoverable then .ready else .fatalError e

/-- A lexer on a source. -/
structure Lexer where
  lexicon : Lexicon
  source : Source
  window : Window
  /-- Where the first byte stands that belongs to no result yet. -/
  position : Position
  state : LexerState
  deriving Repr, DecidableEq

/-- What could be seen of a lexer's work: its reads and its log. -/
structure Trace where
  reads : List ReadRecord
  records : List LogRecord

namespace Trace

/-- Nothing seen. -/
def empty : Trace := ⟨[], []⟩

/-- One trace behind another. -/
def append (s t : Trace) : Trace := ⟨s.reads ++ t.reads, s.records ++ t.records⟩

end Trace

/-- How many characters of unmatchable input an error quotes. -/
def snippetLength : Nat := 16

/-- What to do with the bytes in the window. -/
inductive Step where
  | refill
  /-- Passes over white space. -/
  | skip (length : Nat)
  /-- Consumes bytes and gives a result. -/
  | finish (length : Nat) (result : LexResult)

/-- A request for a token, answered: without a result if the source ended its
thread. -/
structure Turn where
  lexer : Lexer
  result : Option LexResult
  trace : Trace

namespace Lexer

/-- A lexer at the start of a source. -/
def new (lexicon : Lexicon) (source : Source) (bufferSize : Nat) : Lexer :=
  ⟨lexicon, source, .new bufferSize, .start, .ready⟩

/-- The bytes to search: until the stream has ended, without a character at the
end that is incomplete. -/
def view (l : Lexer) : List UInt8 :=
  if l.window.exhausted then l.window.filled
  else l.window.filled.take (Text.completeLength l.window.filled)

/-- The error that `bytes` at the front are no token. -/
def invalid (l : Lexer) (bytes : List UInt8) : LexResult :=
  .error (.invalidToken l.position (Text.lossy bytes))

/-- The error that the bytes in the window are unmatchable. -/
def unmatchable (l : Lexer) : LexResult :=
  .error (.unmatchable l.position
    (String.ofList ((Text.decodeLossy l.window.filled).take snippetLength)))

/-- What to do with a match in `view`. One that reaches the end of the view
could go on in the input to come; one that starts later leaves bytes in front
unmatched. -/
def stepAt (l : Lexer) (view : List UInt8) (m : Match) : Step :=
  if m.stop = view.length ∧ !l.window.exhausted then .refill
  else if 0 < m.start then
    if l.lexicon.hasFallback then
      .finish m.start (l.invalid (view.take m.start))
    else .finish 0 l.unmatchable
  else if m.stop = 0 then .finish 0 l.unmatchable
  else
    let text := view.take m.stop
    match l.lexicon.classify m with
    | some .whitespace => .skip m.stop
    | some .error => .finish m.stop (l.invalid text)
    | some (.token kind) => .finish m.stop (.ok ⟨kind, Text.lossy text⟩)
    | none => .finish 0 l.unmatchable

/-- What to do with the bytes in the window. -/
def step (l : Lexer) : Step :=
  let view := l.view
  match l.lexicon.master.search? view with
  | some m => l.stepAt view m
  | none =>
    if !l.window.exhausted then .refill
    else if l.lexicon.hasFallback then
      .finish l.window.filled.length (l.invalid l.window.filled)
    else .finish 0 l.unmatchable

/-- Consumes bytes from the front. -/
def consume (l : Lexer) (length : Nat) : Lexer :=
  { l with
    position := l.position.past (l.window.filled.take length)
    window := l.window.consume length }

/-- The record of a step. -/
def stepRecords (l : Lexer) : Step → List LogRecord
  | .finish _ (.ok token) =>
    [⟨.trace, "matched <" ++ token.kind.name ++ "> at "
      ++ l.position.place.render⟩]
  | _ => []

/-- The lexer after filling its window. -/
def filled (l : Lexer) (f : Filled) : Lexer :=
  { l with window := f.window, source := f.source, state := .awaitingRefill }

/-- What can be seen of filling a window. -/
def fillTrace (f : Filled) : Trace :=
  ⟨f.reads, f.records ++ match f.outcome with
    | .read count =>
      [⟨.trace, "read " ++ toString count ++ " bytes, "
        ++ toString f.window.filled.length ++ " buffered, capacity "
        ++ toString f.window.capacity⟩]
    | _ => []⟩

/-- A bound on the steps to come: every read takes from the source, every step
without one from the window. -/
def weight (l : Lexer) : Nat :=
  2 * l.source.weight + l.window.filled.length
    + if l.window.exhausted then 0 else 1

theorem weight_filled_lt {l : Lexer}
    {count : Nat} (going : l.window.exhausted = false)
    (h : (l.window.fill l.source).outcome = .read count) :
    (l.filled (l.window.fill l.source)).weight < l.weight := by
  simp only [Window.fill] at h ⊢
  split at h
  · next attempts content rest served =>
    have bound := Source.weight_readPatiently_bytes served
    simp only [filled, weight, Window.receive, Window.makeRoom, going,
      List.length_append, Bool.false_or]
    cases content with
    | nil => simp at bound ⊢; omega
    | cons b bs => simp at bound ⊢; omega
  · cases h
  · cases h

theorem exhausted_of_step_eq_refill {l : Lexer} (h : l.step = .refill) :
    l.window.exhausted = false := by
  simp only [step] at h
  split at h
  · simp only [stepAt] at h
    repeat' split at h
    all_goals simp_all
  · repeat' split at h
    all_goals simp_all

theorem pos_of_step_eq_skip {l : Lexer} {length : Nat}
    (h : l.step = .skip length) : 0 < length := by
  simp only [step] at h
  split at h
  · simp only [stepAt] at h
    repeat' split at h
    all_goals simp_all
    all_goals omega
  · repeat' split at h
    all_goals simp_all

theorem weight_consume_lt {l : Lexer} {length : Nat}
    (nonempty : l.window.isEmpty = false) (pos : 0 < length) :
    (l.consume length).weight < l.weight := by
  have : 0 < l.window.filled.length := by
    rw [List.length_pos_iff]
    simpa [Window.isEmpty] using nonempty
  have shorter : (l.window.filled.drop length).length
      < l.window.filled.length := by
    rw [List.length_drop]; omega
  simp only [weight, consume, Window.consume]
  exact Nat.add_lt_add_right (Nat.add_lt_add_left shorter _) _

/-- Works until there is a result. -/
def scan (l : Lexer) : Turn :=
  let refill : l.window.exhausted = false → Turn := fun going =>
    match outcome : (l.window.fill l.source).outcome with
    | .read _ =>
      have := weight_filled_lt going outcome
      let turn := scan (l.filled (l.window.fill l.source))
      { turn with
        trace := (fillTrace (l.window.fill l.source)).append turn.trace }
    | .failure f =>
      ⟨l.filled (l.window.fill l.source), some (.error (.readFailed f)),
        fillTrace (l.window.fill l.source)⟩
    | .death =>
      ⟨l.filled (l.window.fill l.source), none,
        fillTrace (l.window.fill l.source)⟩
  if nonempty : l.window.isEmpty = false then
    match step : l.step with
    | .refill => refill (exhausted_of_step_eq_refill step)
    | .skip length =>
      have := weight_consume_lt nonempty (pos_of_step_eq_skip step)
      scan (l.consume length)
    | .finish length result =>
      ⟨l.consume length, some result,
        ⟨[], l.stepRecords (.finish length result)⟩⟩
  else if going : l.window.exhausted = false then refill going
  else ⟨l, some (.error .endOfStream), .empty⟩
termination_by l.weight

/-- The next token. After the end of the stream or a fatal error that error is
repeated. -/
def next (l : Lexer) : Turn :=
  match l.state with
  | .endOfStream => ⟨l, some (.error .endOfStream), .empty⟩
  | .fatalError cause => ⟨l, some (.error cause), .empty⟩
  | _ =>
    let turn := l.scan
    match turn.result with
    | some result =>
      { turn with lexer := { turn.lexer with state := .after result } }
    | none => turn

/-- The turns up to the first result that is the last, `limit` at most. -/
def turns (l : Lexer) : (limit : Nat) → List Turn
  | 0 => []
  | limit + 1 =>
    let turn := l.next
    match turn.result with
    | some result =>
      turn :: if result.isLast then [] else turn.lexer.turns limit
    | none => [turn]

/-- A number of turns that reaches the last result. -/
def enoughTurns (l : Lexer) : Nat :=
  l.weight + 2

end Lexer

/-- The items of an iteration over results: those up to the last, which is left
out if it is the end of the stream. -/
def LexResult.items (results : List LexResult) : List LexResult :=
  results.filter fun
    | .error .endOfStream => false
    | _ => true

end Lexigram
