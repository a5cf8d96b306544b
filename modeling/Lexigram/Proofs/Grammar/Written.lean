import Lexigram.Grammar.Basic
import Lexigram.Proofs.Grammar.Quoting

/-!
The notation for grammars, as an inductive grammar: what texts definitions have,
without a word about how they are read.
-/

namespace Lexigram

open Text

/-! ## The notation -/

/-- Blanks and comments, each comment with the end of its line. -/
inductive IsTrivia : List Char → Prop
  | nil : IsTrivia []
  | blank {c : Char} {cs : List Char} :
      isBlank c = true → IsTrivia cs → IsTrivia (c :: cs)
  | comment {line cs : List Char} :
      '\n' ∉ line → IsTrivia cs → IsTrivia ('#' :: (line ++ '\n' :: cs))

/-- Blanks and comments at the end of a text, where the last comment may do
without the end of its line. -/
inductive IsEnding : List Char → Prop
  | trivia {cs : List Char} : IsTrivia cs → IsEnding cs
  | comment {cs line : List Char} :
      IsTrivia cs → '\n' ∉ line → IsEnding (cs ++ '#' :: line)

/-- Whether a text can stand between angle brackets. -/
def IsName (name : String) : Prop :=
  name.toList ≠ [] ∧ ∀ c ∈ name.toList, isNameChar c = true

theorem isName_iff_all {name : String} :
    IsName name ↔ name.toList ≠ [] ∧ name.toList.all isNameChar = true := by
  rw [IsName, List.all_eq_true]

instance (name : String) : Decidable (IsName name) :=
  decidable_of_iff _ isName_iff_all.symm

/-- A mark as it is written. -/
def Mark.text : Mark → List Char
  | .none => []
  | .start => ['!']
  | .parameter => ['#']

/-- A name between angle brackets, behind a mark. Spaces may stand before the
mark and behind the name. -/
inductive IsTag (mark : Mark) (name : String) : List Char → Prop
  | intro {before behind : List Char} :
      (∀ c ∈ before, isSpace c = true) → IsName name →
        (∀ c ∈ behind, isSpace c = true) → IsTag mark name
        ('<' :: (before ++ (mark.text ++ (name.toList ++ (behind ++ ['>'])))))

/-- What may stand between the quotes of a literal: a backslash takes the
character behind it along. -/
inductive IsPatternText : List Char → Prop
  | nil : IsPatternText []
  | char {c : Char} {cs : List Char} :
      c ≠ '"' → c ≠ '\\' → IsPatternText cs → IsPatternText (c :: cs)
  | escape (c : Char) {cs : List Char} :
      IsPatternText cs → IsPatternText ('\\' :: c :: cs)

/-- What may stand behind the bracket that closes a group. -/
inductive IsGroupSuffix : Multiplicity → List Char → Prop
  | none : IsGroupSuffix .one []
  | char {m : Multiplicity} {c : Char} {blanks : List Char} :
      (∀ c ∈ blanks, isBlank c = true) →
        Multiplicity.ofSuffix? c = some m → IsGroupSuffix m (blanks ++ [c])

/-- Tokens in sequence, with blanks and comments before, between and behind
them. -/
inductive IsSequence : List (Token String) → List Char → Prop
  | trivia {cs : List Char} : IsTrivia cs → IsSequence [] cs
  | reference {name : String} {cs : List Char} :
      IsTag .none name cs → IsSequence [.reference name] cs
  | literal {p : String} : IsPatternText p.toList →
      IsSequence [.literal p] ('"' :: (p.toList ++ ['"']))
  | group {ts : List (Token String)} {m : Multiplicity}
      {inside suffix : List Char} : IsSequence ts inside →
      IsGroupSuffix m suffix → IsSequence [.group m ts]
      ('\x7b' :: (inside ++ '\x7d' :: suffix))
  | append {ts us : List (Token String)} {cs ds : List Char} :
      IsSequence ts cs → IsSequence us ds →
        IsSequence (ts ++ us) (cs ++ ds)

/-- The alternative that a sequence stands for: none if it has no tokens; the
one without tokens if its only token is the empty literal. -/
def kept : List (Token String) → List (Alternative String)
  | [] => []
  | [.literal ""] => [[]]
  | tokens => [tokens]

/-- Alternatives, with a bar between two sequences. -/
inductive IsAlternatives : List (Alternative String) → List Char → Prop
  | sequence {ts : List (Token String)} {cs : List Char} :
      IsSequence ts cs → IsAlternatives (kept ts) cs
  | bar {as : List (Alternative String)} {ts : List (Token String)}
      {cs ds : List Char} : IsAlternatives as cs →
      IsSequence ts ds → IsAlternatives (as ++ kept ts) (cs ++ '|' :: ds)

/-- A definition, up to and including the semicolon. -/
inductive IsDefinition : Definition → List Char → Prop
  | rule {name : String} {start : Bool} {as : List (Alternative String)}
      {tag blanks op body : List Char} :
      IsTag (if start then .start else .none) name tag →
        (∀ c ∈ blanks, isBlank c = true) → op ∈ assignmentOperators →
      IsAlternatives as body → as ≠ [] →
      IsDefinition (.rule name start as)
      (tag ++ (blanks ++ (op ++ (body ++ [';']))))
  | parameter {key value : String} {tag blanks op before behind : List Char} :
      IsTag .parameter key tag → (∀ c ∈ blanks, isBlank c = true) →
        op ∈ assignmentOperators →
      IsTrivia before → IsPatternText value.toList → IsTrivia behind →
      IsDefinition (.parameter key value) (tag ++ (blanks ++ (op
        ++ (before ++ ('"' :: (value.toList ++ '"' :: (behind ++ [';'])))))))

/-- Definitions one behind the other, with blanks and comments before, between
and behind them. -/
inductive IsGrammarText : List Definition → List Char → Prop
  | ending {cs : List Char} : IsEnding cs → IsGrammarText [] cs
  | definition {d : Definition} {ds : List Definition}
      {trivia cs rest : List Char} : IsTrivia trivia →
      IsDefinition d cs → IsGrammarText ds rest →
      IsGrammarText (d :: ds) (trivia ++ (cs ++ rest))

/-! ## Blanks and comments -/

theorem isBlank_hash : isBlank '#' = false := by decide

theorem isTrivia_of_isBlank {cs : List Char}
    (blanks : ∀ c ∈ cs, isBlank c = true) : IsTrivia cs := by
  induction cs with
  | nil => exact .nil
  | cons c cs ih =>
    rw [List.forall_mem_cons] at blanks
    exact .blank blanks.1 (ih blanks.2)

theorem IsTrivia.append {cs ds : List Char} (h : IsTrivia cs)
    (h' : IsTrivia ds) : IsTrivia (cs ++ ds) := by
  induction h with
  | nil => exact h'
  | blank blank _ ih => exact .blank blank ih
  | @comment line cs inLine _ ih =>
    rw [List.cons_append, List.append_assoc, List.cons_append]
    exact .comment inLine ih

theorem IsTrivia.append_isEnding {cs ds : List Char} (h : IsTrivia cs)
    (h' : IsEnding ds) : IsEnding (cs ++ ds) := by
  cases h' with
  | trivia more => exact .trivia (h.append more)
  | comment more inLine =>
    rw [← List.append_assoc]
    exact .comment (h.append more) inLine

/-- The rest of a comment is taken up to the end of its line. -/
theorem spanTrivia_comment_line {line : List Char} (inLine : '\n' ∉ line)
    (cs : List Char) :
    spanTrivia true (line ++ '\n' :: cs)
      = (line ++ '\n' :: (spanTrivia false cs).1, (spanTrivia false cs).2) := by
  induction line with
  | nil => rfl
  | cons c line ih =>
    rw [List.mem_cons, not_or] at inLine
    have goesOn : (c != '\n') = true := bne_iff_ne.mpr (Ne.symm inLine.1)
    simp only [List.cons_append, spanTrivia, Bool.true_or, if_true, goesOn,
      ih inLine.2]

theorem spanTrivia_comment_end {line : List Char} (inLine : '\n' ∉ line) :
    spanTrivia true line = (line, []) := by
  induction line with
  | nil => rfl
  | cons c line ih =>
    rw [List.mem_cons, not_or] at inLine
    have goesOn : (c != '\n') = true := bne_iff_ne.mpr (Ne.symm inLine.1)
    simp only [spanTrivia, Bool.true_or, if_true, goesOn, ih inLine.2]

theorem spanTrivia_blank {c : Char} (blank : isBlank c = true)
    (cs : List Char) :
    spanTrivia false (c :: cs)
      = (c :: (spanTrivia false cs).1, (spanTrivia false cs).2) := by
  have other : (c == '#') = false := beq_eq_false_iff_ne.mpr fun same => by
    rw [same, isBlank_hash] at blank
    cases blank
  simp only [spanTrivia, blank, Bool.false_or, Bool.true_or, if_true, other,
    Bool.false_eq_true, if_false]

/-- Blanks and comments are taken whole. -/
theorem IsTrivia.spanTrivia_append {cs : List Char} (h : IsTrivia cs)
    (ds : List Char) :
    spanTrivia false (cs ++ ds)
      = (cs ++ (spanTrivia false ds).1, (spanTrivia false ds).2) := by
  induction h with
  | nil => rfl
  | blank blank _ ih => rw [List.cons_append, spanTrivia_blank blank, ih]; rfl
  | @comment line cs inLine _ ih =>
    rw [List.cons_append, List.append_assoc, List.cons_append, spanTrivia]
    simp only [Bool.false_or, beq_self_eq_true, Bool.or_true, if_true,
      Bool.false_eq_true, if_false, spanTrivia_comment_line inLine, ih]
    simp

theorem IsEnding.spanTrivia_eq {cs : List Char} (h : IsEnding cs) :
    spanTrivia false cs = (cs, []) := by
  cases h with
  | trivia trivia =>
    have all := trivia.spanTrivia_append []
    rw [List.append_nil] at all
    exact all.trans (by
      rw [show spanTrivia false [] = ([], []) from rfl, List.append_nil])
  | @comment cs line trivia inLine =>
    rw [trivia.spanTrivia_append, spanTrivia]
    simp only [Bool.false_or, beq_self_eq_true, Bool.or_true, if_true,
      Bool.false_eq_true, if_false, spanTrivia_comment_end inLine]

/-- What is taken is blanks and comments, and all of the text if its last
comment has no end. The induction follows the text, inside a comment and
outside; of a comment the part `line` has been taken. -/
theorem isTrivia_or_isEnding_spanTrivia (cs : List Char) :
    (IsTrivia (spanTrivia false cs).1 ∨ IsEnding (spanTrivia false cs).1 ∧
      (spanTrivia false cs).2 = []) ∧
    ∀ line, '\n' ∉ line → IsTrivia ('#' :: (line ++ (spanTrivia true cs).1)) ∨
      IsEnding ('#' :: (line ++ (spanTrivia true cs).1)) ∧
      (spanTrivia true cs).2 = [] := by
  induction cs with
  | nil =>
    refine ⟨.inl .nil, fun line inLine => .inr ⟨?_, rfl⟩⟩
    rw [show (spanTrivia true []).1 = [] from rfl, List.append_nil]
    exact .comment .nil inLine
  | cons c cs ih =>
    obtain ⟨outside, inside⟩ := ih
    constructor
    · by_cases blank : isBlank c = true
      · rw [spanTrivia_blank blank]
        exact outside.imp (.blank blank)
          (.imp_left (IsTrivia.nil.blank blank).append_isEnding)
      · by_cases comment : c = '#'
        · subst comment
          exact inside [] List.not_mem_nil
        · exact .inl (by simpa [spanTrivia, blank, comment] using IsTrivia.nil)
    · intro line inLine
      by_cases last : c = '\n'
      · subst last
        refine outside.imp (.comment inLine) (.imp_left fun ending => ?_)
        have whole := (IsTrivia.nil.comment inLine).append_isEnding ending
        rwa [List.cons_append, List.append_assoc] at whole
      · have more := inside (line ++ [c]) (by simpa [inLine] using Ne.symm last)
        have goesOn : (c != '\n') = true := bne_iff_ne.mpr last
        simpa only [spanTrivia, Bool.true_or, if_true, goesOn,
          List.append_assoc, List.singleton_append] using more

theorem IsAlternatives.append_trivia {as : List (Alternative String)}
    {cs trivia : List Char} (h : IsAlternatives as cs)
    (behind : IsTrivia trivia) : IsAlternatives as (cs ++ trivia) := by
  have goesOn {ts : List (Token String)} {ds : List Char}
    (last : IsSequence ts ds) :
      IsSequence ts (ds ++ trivia) := by
    have more := last.append (.trivia behind)
    rwa [List.append_nil] at more
  cases h with
  | sequence only => exact .sequence (goesOn only)
  | bar before last =>
    rw [List.append_assoc, List.cons_append]
    exact .bar before (goesOn last)

theorem IsGrammarText.trivia_append {ds : List Definition}
    {cs trivia : List Char} (h : IsGrammarText ds cs)
    (before : IsTrivia trivia) : IsGrammarText ds (trivia ++ cs) := by
  cases h with
  | ending ending => exact .ending (before.append_isEnding ending)
  | definition isTrivia isDefinition rest =>
    rw [← List.append_assoc]
    exact .definition (before.append isTrivia) isDefinition rest

/-! ## Literals -/

theorem IsPatternText.isQuotable {cs : List Char} (h : IsPatternText cs) :
    IsQuotable cs := by
  induction h with
  | nil => exact isQuotable_nil
  | char notQuote notBackslash _ ih =>
    simpa [IsQuotable, escapeQuotes, endsEscaped, notQuote, notBackslash]
      using ih
  | escape c _ ih => simpa [IsQuotable, escapeQuotes, endsEscaped] using ih

/-- A text behind whose quotes a literal may end is one that can stand between
them; behind a backslash it is so but for its first character. -/
theorem isPatternText_of_closed (cs : List Char) :
    (IsQuotable cs → IsPatternText cs) ∧
    (escapeQuotes true cs = cs → endsEscaped true cs = false →
      IsPatternText ('\\' :: cs)) := by
  induction cs with
  | nil => exact ⟨fun _ => .nil, fun _ open' => nomatch open'⟩
  | cons c cs ih =>
    obtain ⟨outside, behind⟩ := ih
    constructor
    · rintro ⟨same, closed⟩
      by_cases quote : c = '"'
      · simp [escapeQuotes, quote] at same
      · by_cases backslash : c = '\\'
        · subst backslash
          exact behind (by simpa [escapeQuotes] using same)
            (by simpa [endsEscaped] using closed)
        · exact .char quote backslash (outside (by
            simpa [IsQuotable, escapeQuotes, endsEscaped, quote, backslash]
              using And.intro same closed))
    · intro same closed
      exact .escape c (outside ⟨by simpa [escapeQuotes] using same,
        by simpa [endsEscaped] using closed⟩)

theorem isPatternText_iff {cs : List Char} : IsPatternText cs ↔ IsQuotable cs :=
  ⟨fun h => h.isQuotable, (isPatternText_of_closed cs).1⟩

end Lexigram
