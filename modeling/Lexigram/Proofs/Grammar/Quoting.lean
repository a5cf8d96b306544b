import Lexigram.Grammar.Reader

/-!
Literals between quotes. A pattern can be written as a literal if it does not
end behind a backslash that takes the closing quote along; reading the literal
gives the pattern back with a backslash before each quote. The patterns that
reading gives have these backslashes already, so they are written as they are.
-/

namespace Lexigram

open Text

/-- Whether a pattern ends behind a backslash that takes the next character
along; `escaped` says whether the first character already follows one. -/
def endsEscaped (escaped : Bool) : List Char → Bool
  | [] => escaped
  | c :: cs => endsEscaped (c = '\\' && !escaped) cs

/-- Whether a pattern is written as it is, and ends at the quote that closes
it. -/
def IsQuotable (pattern : List Char) : Prop :=
  escapeQuotes false pattern = pattern ∧ endsEscaped false pattern = false

instance (pattern : List Char) : Decidable (IsQuotable pattern) :=
  inferInstanceAs (Decidable (_ ∧ _))

theorem isQuotable_nil : IsQuotable [] :=
  ⟨rfl, rfl⟩

/-! ## Reading what was written -/

/-- What is written of a pattern is read up to the closing quote: the quotes in
between follow backslashes. -/
theorem readLiteralFrom_escapeQuotes (start : Place) {escaped : Bool}
    {pattern : List Char} (closed : endsEscaped escaped pattern = false)
    (p : Place) (read rest : List Char) :
    ∃ p', readLiteralFrom start escaped p read
      (escapeQuotes escaped pattern ++ '"' :: rest)
      = .ok (String.ofList (read.reverse ++ escapeQuotes escaped pattern),
        ⟨rest, p'⟩) := by
  induction pattern generalizing escaped p read with
  | nil =>
    cases closed
    exact ⟨p.after '"', by simp [readLiteralFrom, escapeQuotes]⟩
  | cons c pattern ih =>
    rw [endsEscaped] at closed
    simp only [escapeQuotes]
    split
    · next quote =>
      -- the backslash before the quote is read first, and the quote follows it
      obtain ⟨rfl, unescaped⟩ := quote
      obtain ⟨p', eq⟩ :=
        ih closed ((p.after '\\').after '"') ('"' :: '\\' :: read)
      refine ⟨p', ?_⟩
      cases escaped with
      | true => cases unescaped
      | false => simpa [readLiteralFrom] using eq
    · next other =>
      obtain ⟨p', eq⟩ := ih closed (p.after c) (c :: read)
      refine ⟨p', ?_⟩
      rw [List.cons_append, readLiteralFrom, if_neg other, eq]
      simp

/-- A literal is read as its pattern, with a backslash before each quote. -/
theorem readLiteral_writeLiteral {pattern : List Char}
    (closed : endsEscaped false pattern = false) (p : Place)
    (rest : List Char) :
    ∃ p', readLiteral ⟨writeLiteral pattern ++ rest, p⟩
      = .ok (String.ofList (escapeQuotes false pattern), ⟨rest, p'⟩) := by
  obtain ⟨p', eq⟩ :=
    readLiteralFrom_escapeQuotes p closed (p.past ['"']) [] rest
  exact ⟨p', by simpa [readLiteral, writeLiteral, Cursor.advance] using eq⟩

/-! ## Writing what was read -/

/-- What is read of a literal has a backslash before each quote, and ends at the
closing quote. -/
theorem isQuotable_of_readLiteralFrom {start p : Place}
    {escaped : Bool} {read cs : List Char} {text : String} {next : Cursor}
    (h : readLiteralFrom start escaped p read cs = .ok (text, next)) :
    ∃ pattern, text.toList = read.reverse ++ pattern
      ∧ cs = pattern ++ '"' :: next.rest
      ∧ escapeQuotes escaped pattern = pattern
      ∧ endsEscaped escaped pattern = false := by
  induction cs generalizing escaped p read with
  | nil => cases h
  | cons c cs ih =>
    rw [readLiteralFrom] at h
    split at h
    · next quote =>
      cases h
      obtain ⟨rfl, unescaped⟩ := quote
      exact ⟨[], by simp, rfl, rfl, by simpa [endsEscaped] using unescaped⟩
    · next other =>
      obtain ⟨pattern, eq, rfl, same, closed⟩ := ih h
      refine ⟨c :: pattern, by simp [eq], rfl, ?_, closed⟩
      rw [escapeQuotes, if_neg other, same]

theorem isQuotable_of_readLiteral {cur next : Cursor} {text : String}
    (h : readLiteral cur = .ok (text, next)) :
    IsQuotable text.toList ∧ (cur.advance 1).rest = text.toList ++ '"' ::
      next.rest := by
  obtain ⟨pattern, eq, whole, same, closed⟩ := isQuotable_of_readLiteralFrom h
  rw [List.reverse_nil, List.nil_append] at eq
  rw [eq]
  exact ⟨⟨same, closed⟩, whole⟩

/-- A quotable pattern is read back as it is. -/
theorem readLiteral_of_isQuotable {pattern : String}
    (quotable : IsQuotable pattern.toList) (p : Place) (rest : List Char) :
    ∃ p', readLiteral ⟨writeLiteral pattern.toList ++ rest, p⟩
      = .ok (pattern, ⟨rest, p'⟩) := by
  obtain ⟨p', eq⟩ := readLiteral_writeLiteral quotable.2 p rest
  exact ⟨p', by rw [eq, quotable.1, String.ofList_toList]⟩

end Lexigram
