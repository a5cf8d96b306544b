import Lexigram.Proofs.Grammar.Whereabouts
import Lexigram.Proofs.Stream.Pieces
import Lexigram.Proofs.Text.Boundaries

/-!
Positions count what has been consumed. A position is moved on piece by piece,
each decoded by itself, and still it has the offset, the line and the bound of
all the bytes in front of it; its column is that of their text if no piece ends
inside a character (`Position.Counts`).
-/

namespace Lexigram

open Text (Place Boundary decodeLossy)

/-! ## Places behind texts -/

theorem Text.length_decodeLossy_le (bytes : List UInt8) :
    (decodeLossy bytes).length ≤ bytes.length := by
  fun_induction decodeLossy bytes with
  | case1 => exact Nat.le_refl _
  | case2 lead rest first ih =>
    rw [List.length_drop] at ih
    simp only [List.length_cons]
    omega

namespace Piece

variable {pieces : List Piece}

/-- The text of pieces, each decoded by itself. -/
def text (pieces : List Piece) : List Char :=
  pieces.flatMap fun piece => decodeLossy piece.bytes

theorem place_past (p : Position) (pieces : List Piece) :
    (past p pieces).place = p.place.past (text pieces) := by
  induction pieces generalizing p with
  | nil => rfl
  | cons piece pieces ih =>
    show (past (p.past piece.bytes) pieces).place
      = p.place.past (decodeLossy piece.bytes ++ text pieces)
    rw [ih, Place.past_append]
    rfl

/-- The pieces have the line ends of their bytes, wherever they end. -/
theorem count_newline_text (pieces : List Piece) :
    (text pieces).count '\n' = (content pieces).count 10 := by
  induction pieces with
  | nil => rfl
  | cons piece pieces ih =>
    show (decodeLossy piece.bytes ++ text pieces).count '\n'
      = (piece.bytes ++ content pieces).count 10
    rw [List.count_append, List.count_append,
      ih, Text.count_newline_decodeLossy]

theorem length_text_le (pieces : List Piece) :
    (text pieces).length ≤ (content pieces).length := by
  induction pieces with
  | nil => exact Nat.le_refl _
  | cons piece pieces ih =>
    have here := Text.length_decodeLossy_le piece.bytes
    show (decodeLossy piece.bytes ++ text pieces).length
      ≤ (piece.bytes ++ content pieces).length
    rw [List.length_append, List.length_append]
    omega

/-- Whether every piece ends between two heads of the input that the pieces are
the front of. -/
def EndBetween (input : List UInt8) (pieces : List Piece) : Prop :=
  content pieces <+: input ∧ ∀ front, front <+: pieces →
    Boundary input (content front).length

/-- Pieces that do not cut a character have the text of their bytes. -/
theorem EndBetween.text_eq {input : List UInt8} (h : EndBetween input pieces) :
    text pieces = decodeLossy (content pieces) := by
  induction pieces using List.reverseRecOn with
  | nil => simp [text, content, decodeLossy]
  | append_singleton front piece ih =>
    obtain ⟨⟨behind, whole⟩, ends⟩ := h
    have shorter : EndBetween input front := by
      refine ⟨⟨piece.bytes ++ behind, ?_⟩,
        fun part inside => ends part (inside.trans (List.prefix_append _ _))⟩
      rw [← whole, content_append, List.append_assoc]
      simp [content]
    have cut : Boundary (content (front ++ [piece]))
        (content front).length := by
      have there := (ends front (List.prefix_append _ _)).take
        (m := (content (front ++ [piece])).length)
        (by rw [content_append, List.length_append]; omega)
      rwa [← whole, List.take_left] at there
    have split := cut.decodeLossy_eq
    rw [content_append, List.take_left, List.drop_left] at split
    rw [content_append, split, ← ih shorter]
    simp [text, content]

end Piece

/-! ## Positions behind pieces -/

namespace Position

/-- Whether a position counts the bytes of pieces: their number, the line ends
among them, and, if no piece cuts a character of the input, the characters of
their text behind the last line end. -/
structure Counts (p : Position) (pieces : List Piece) : Prop where
  offset : p.offset = (Piece.content pieces).length
  line : p.place.line = (Piece.content pieces).count 10 + 1
  column : ∀ input, Piece.EndBetween input pieces →
    p.place.column = ((decodeLossy (Piece.content pieces)).reverse.takeWhile
      (· != '\n')).length + 1
  fits : (Piece.content pieces).length < UInt32.size - 1 →
    p.place.line < UInt32.size ∧ p.place.column < UInt32.size

theorem counts_past_start (pieces : List Piece) :
    (Piece.past .start pieces).Counts pieces := by
  have place := Piece.place_past .start pieces
  have texts := Place.past_start (Piece.text pieces)
  have start : Position.start.place = .start := rfl
  rw [start, texts] at place
  constructor
  · rw [Piece.offset_past]
    exact Nat.zero_add _
  · rw [place, Piece.count_newline_text]
  · intro input ends
    rw [place, ends.text_eq]
  · intro few
    have bound := Place.line_add_column_past_le (p := .start) (Nat.le_refl 1)
      (Piece.text pieces)
    have fewer := Piece.length_text_le pieces
    rw [texts] at bound
    rw [place]
    simp only [Place.start] at bound ⊢
    omega

end Position

/-- **Positions count what has been consumed.** After any number of requests to
a lexer on any source, the bytes that the reads have delivered are those of the
pieces consumed and those in the window, the results are those of the pieces,
and the position counts the pieces. An invalid token in the next result is the
last piece that this request consumes, and its position counts the pieces in
front of it. Where input is unmatchable nothing of it is consumed: its position
is that of the lexer, and it is quoted from the front of the window. -/
theorem Lexer.position_counts (c : Lexicon) (source : Source)
    (bufferSize n : Nat) :
    source.Serves (((new c source bufferSize).requests n).flatMap
        (·.trace.reads))
        (Piece.content ((new c source bufferSize).requestPieces n)
          ++ ((new c source bufferSize).afterRequests n).window.filled)
        ((new c source bufferSize).afterRequests n).source
      ∧ tokenResults (((new c source bufferSize).requests n).map (·.result))
        = Piece.results .start ((new c source bufferSize).requestPieces n)
      ∧ ((new c source bufferSize).afterRequests n).position.Counts
        ((new c source bufferSize).requestPieces n)
      ∧ (∀ p text, ((new c source bufferSize).afterRequests n).next.result
        = some (.error (.invalidToken p text)) →
        ∃ front bytes, (new c source bufferSize).requestPieces (n + 1)
        = front ++ [⟨.error, bytes⟩]
          ∧ text = Text.lossy bytes ∧ p.Counts front)
      ∧ ∀ p snippet, ((new c source bufferSize).afterRequests n).next.result
        = some (.error (.unmatchable p snippet)) →
        p = ((new c source bufferSize).afterRequests (n + 1)).position
          ∧ p.Counts ((new c source bufferSize).requestPieces (n + 1))
          ∧ snippet = String.ofList
            ((decodeLossy ((new c source bufferSize).afterRequests
              (n + 1)).window.filled).take snippetLength) := by
  have settled := settled_new c source bufferSize
  obtain ⟨accounts, results, located⟩ :=
    accounts_requests settled (located_new c source bufferSize) n
  have now := consumes_next (settled_afterRequests settled n) located
  have later := (accounts_requests settled (located_new c source bufferSize)
    (n + 1)).1.position
  have start : (new c source bufferSize).position = .start := rfl
  obtain ⟨content, serves, same⟩ := accounts.conserves
  have fresh : (new c source bufferSize).window.filled = [] := rfl
  rw [fresh, List.nil_append] at same
  rw [start] at results later
  have position := accounts.position
  rw [start] at position
  refine ⟨same ▸ serves, results.symm, position ▸ Position.counts_past_start _,
    fun p text gives => ?_,
    fun p snippet gives => ?_⟩
  · have stands := now.stands
    rw [gives] at stands
    obtain ⟨front, bytes, pieces, place, same⟩ := stands.exists_invalid
    refine ⟨(new c source bufferSize).requestPieces n ++ front, bytes, ?_,
      same, ?_⟩
    · rw [requestPieces_succ, pieces, List.append_assoc]
    · rw [place, position, ← Piece.past_append]
      exact Position.counts_past_start _
  · have told := now.unmatched p snippet gives
    rw [gives, ← afterRequests_succ] at told
    cases told
    exact ⟨rfl, later ▸ Position.counts_past_start _, rfl⟩

end Lexigram
