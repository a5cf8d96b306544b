import Mathlib.Data.List.Induction
import Lexigram.Proofs.Grammar.ReadBack
import Lexigram.Proofs.Grammar.Whereabouts

/-!
Literals survive printing. Writer and reader each know by the character before
whether the next one is escaped; told of the text itself, it is if it follows an
odd number of backslashes (`EscapesNext`). So what is written of a pattern is
the pattern with a backslash before each quote that is not escaped, and this is
what is read of it.
-/

namespace Lexigram

open Text

/-! ## Escaped characters -/

/-- How many backslashes a text ends with. -/
def trailingBackslashes (front : List Char) : Nat :=
  (front.reverse.takeWhile (· == '\\')).length

/-- Whether the character behind a text is escaped: it follows an odd number of
backslashes. -/
def EscapesNext (front : List Char) : Prop :=
  trailingBackslashes front % 2 = 1

instance (front : List Char) : Decidable (EscapesNext front) :=
  inferInstanceAs (Decidable (_ = _))

/-- Whether there is a quote in a pattern that is not escaped. -/
def HasBareQuote (pattern : List Char) : Prop :=
  ∃ front back, pattern = front ++ '"' :: back ∧ ¬ EscapesNext front

/-- Whether a pattern ends in a backslash that is not escaped. -/
def EndsInBackslash (pattern : List Char) : Prop :=
  ∃ front, pattern = front ++ ['\\'] ∧ ¬ EscapesNext front

/-- A character as it is written behind a text: with a backslash if it is a
quote that is not escaped. -/
def escapedBehind (front : List Char) (c : Char) : List Char :=
  if c = '"' ∧ ¬ EscapesNext front then ['\\', c] else [c]

/-- A pattern with a backslash before each quote that is not escaped. -/
def withQuotesEscaped (pattern : List Char) : List Char :=
  pattern.zipIdx.flatMap fun x => escapedBehind (pattern.take x.2) x.1

theorem not_escapesNext_nil : ¬ EscapesNext [] := by
  decide

theorem escapesNext_concat {front : List Char} {c : Char} :
    EscapesNext (front ++ [c]) ↔ c = '\\' ∧ ¬ EscapesNext front := by
  by_cases backslash : c = '\\'
  · simp [EscapesNext, trailingBackslashes, backslash]
    omega
  · simp [EscapesNext, trailingBackslashes, backslash]

/-- The state of writer and reader behind a character. -/
theorem decide_escapesNext_concat (front : List Char) (c : Char) :
    decide (EscapesNext (front ++ [c]))
      = (c = '\\' && !decide (EscapesNext front)) := by
  simp [escapesNext_concat]

/-! ## The writer -/

theorem escapeQuotes_cons (front : List Char) (c : Char) (cs : List Char) :
    escapeQuotes (decide (EscapesNext front)) (c :: cs)
      = escapedBehind front c ++ escapeQuotes
      (decide (EscapesNext (front ++ [c]))) cs := by
  rw [decide_escapesNext_concat, escapeQuotes, escapedBehind]
  by_cases bare : c = '"' ∧ ¬ EscapesNext front
  · simp [bare]
  · rw [if_neg bare, if_neg (by simpa using bare), List.singleton_append]

/-- Behind any text, quotes that are not escaped get a backslash. -/
theorem escapeQuotes_eq_flatMap (front cs : List Char) :
    escapeQuotes (decide (EscapesNext front)) cs
      = (cs.zipIdx front.length).flatMap fun x =>
        escapedBehind ((front ++ cs).take x.2) x.1 := by
  induction cs generalizing front with
  | nil => rfl
  | cons c cs ih =>
    have rest := ih (front ++ [c])
    rw [List.length_append, List.length_singleton,
      List.append_assoc, List.singleton_append] at rest
    rw [escapeQuotes_cons, rest, List.zipIdx_cons,
      List.flatMap_cons, List.take_left]

theorem escapeQuotes_eq_withQuotesEscaped (pattern : List Char) :
    escapeQuotes false pattern = withQuotesEscaped pattern :=
  escapeQuotes_eq_flatMap [] pattern

example : withQuotesEscaped ['a', '"', '\\', '"', '\\', '\\', '"']
    = ['a', '\\', '"', '\\', '"', '\\', '\\', '\\', '"'] := by
  decide

/-- A pattern stays as it is if all its quotes are escaped. -/
theorem escapeQuotes_eq_self_iff (front cs : List Char) :
    escapeQuotes (decide (EscapesNext front)) cs = cs
      ↔ ∀ before behind, cs = before ++ '"' :: behind →
      EscapesNext (front ++ before) := by
  induction cs generalizing front with
  | nil => simp [escapeQuotes]
  | cons c cs ih =>
    rw [escapeQuotes_cons, escapedBehind]
    by_cases bare : c = '"' ∧ ¬ EscapesNext front
    · obtain ⟨rfl, bare'⟩ := bare
      constructor
      · intro same
        simp [bare'] at same
      · intro escaped
        have here := escaped [] cs rfl
        rw [List.append_nil] at here
        exact absurd here bare'
    · rw [if_neg bare, List.singleton_append, List.cons_inj_right, ih]
      constructor
      · intro later before behind whole
        cases before with
        | nil =>
          obtain ⟨rfl, -⟩ := List.cons.inj whole
          rw [List.append_nil]
          exact Decidable.byContradiction fun other => bare ⟨rfl, other⟩
        | cons b before =>
          obtain ⟨rfl, rest⟩ := List.cons.inj whole
          have escaped := later before behind rest
          rwa [List.append_assoc, List.singleton_append] at escaped
      · intro escaped before behind rest
        have here := escaped (c :: before) behind (congrArg (c :: ·) rest)
        rwa [List.append_assoc, List.singleton_append]

theorem withQuotesEscaped_eq_self_iff {pattern : List Char} :
    withQuotesEscaped pattern = pattern ↔ ¬ HasBareQuote pattern := by
  have same := escapeQuotes_eq_self_iff [] pattern
  rw [← escapeQuotes_eq_withQuotesEscaped,
    ← decide_eq_false not_escapesNext_nil, same]
  simp [HasBareQuote]

/-- What was escaped once is not escaped again. -/
theorem escapeQuotes_escapeQuotes (escaped : Bool) (cs : List Char) :
    escapeQuotes escaped (escapeQuotes escaped cs)
      = escapeQuotes escaped cs := by
  induction cs generalizing escaped with
  | nil => rfl
  | cons c cs ih =>
    by_cases bare : c = '"' ∧ (!escaped) = true
    · obtain ⟨rfl, unescaped⟩ := bare
      have rest := ih false
      cases escaped with
      | true => cases unescaped
      | false => simpa [escapeQuotes] using rest
    · have rest := ih (c = '\\' && !escaped)
      rw [escapeQuotes, if_neg bare, escapeQuotes, if_neg bare, rest]

/-! ## The reader -/

/-- The reader's state behind a text. -/
theorem endsEscaped_eq (front cs : List Char) :
    endsEscaped (decide (EscapesNext front)) cs
      = decide (EscapesNext (front ++ cs)) := by
  induction cs generalizing front with
  | nil => rw [endsEscaped, List.append_nil]
  | cons c cs ih =>
    rw [endsEscaped, ← decide_escapesNext_concat, ih,
      List.append_assoc, List.singleton_append]

theorem endsInBackslash_iff {pattern : List Char} :
    EndsInBackslash pattern ↔ EscapesNext pattern := by
  constructor
  · rintro ⟨front, rfl, unescaped⟩
    exact escapesNext_concat.mpr ⟨rfl, unescaped⟩
  · intro escapes
    induction pattern using List.reverseRecOn with
    | nil => exact absurd escapes not_escapesNext_nil
    | append_singleton front c _ =>
      obtain ⟨rfl, unescaped⟩ := escapesNext_concat.mp escapes
      exact ⟨front, rfl, unescaped⟩

theorem endsEscaped_eq_false_iff {pattern : List Char} :
    endsEscaped false pattern = false ↔ ¬ EndsInBackslash pattern := by
  have state := endsEscaped_eq [] pattern
  rw [decide_eq_false not_escapesNext_nil, List.nil_append] at state
  rw [state, decide_eq_false_iff_not, endsInBackslash_iff]

/-- A pattern can be a literal as it is if all its quotes are escaped and it
does not escape the one that closes it. -/
theorem isQuotable_iff {pattern : List Char} :
    IsQuotable pattern ↔ ¬ HasBareQuote pattern ∧
      ¬ EndsInBackslash pattern := by
  rw [IsQuotable, escapeQuotes_eq_withQuotesEscaped,
    withQuotesEscaped_eq_self_iff, endsEscaped_eq_false_iff]

/-- A literal is read up to its end, as its pattern with the quotes escaped. -/
theorem readLiteral_writeLiteral_eq {pattern : List Char}
    (closed : ¬ EndsInBackslash pattern) (place : Place) (rest : List Char) :
    readLiteral ⟨writeLiteral pattern ++ rest, place⟩
      = .ok (String.ofList (withQuotesEscaped pattern),
        ⟨rest, place.past (writeLiteral pattern)⟩) := by
  obtain ⟨place', read⟩ :=
    readLiteral_writeLiteral (endsEscaped_eq_false_iff.mpr closed) place rest
  have text : (⟨writeLiteral pattern ++ rest, place⟩ : Cursor).rest
      = writeLiteral pattern ++ (⟨rest, place'⟩ : Cursor).rest := rfl
  have there : place' = place.past (writeLiteral pattern) :=
    (leads_readLiteral read).place_eq text
  rw [read, escapeQuotes_eq_withQuotesEscaped, there]

/-! ## Patterns that were read -/

/-- The patterns in a definition. -/
def Definition.patterns : Definition → List String
  | .rule _ _ as => as.flatMap Token.patterns
  | .parameter _ value => [value]

theorem Definition.IsWritable.isQuotable {d : Definition} (h : d.IsWritable) :
    ∀ pattern ∈ d.patterns, IsQuotable pattern.toList := by
  cases d with
  | rule name start as =>
    intro pattern mem
    obtain ⟨a, listed, inside⟩ := List.mem_flatMap.mp mem
    exact (h.2.2 a listed).1 pattern inside
  | parameter key value => exact List.forall_mem_singleton.mpr h.2

/-- Whether a pattern is printed as it is, and read again. -/
structure Survives (pattern : String) : Prop where
  quotes : ¬ HasBareQuote pattern.toList
  closed : ¬ EndsInBackslash pattern.toList
  printed : writeLiteral pattern.toList = '"' :: pattern.toList ++ ['"']
  reread : ∀ place rest,
    readLiteral ⟨writeLiteral pattern.toList ++ rest, place⟩
    = .ok (pattern, ⟨rest, place.past (writeLiteral pattern.toList)⟩)

theorem survives_of_isQuotable {pattern : String}
    (h : IsQuotable pattern.toList) : Survives pattern := by
  obtain ⟨quotes, closed⟩ := isQuotable_iff.mp h
  refine ⟨quotes, closed, by rw [writeLiteral, h.1], fun place rest => ?_⟩
  rw [readLiteral_writeLiteral_eq closed,
    withQuotesEscaped_eq_self_iff.mpr quotes, String.ofList_toList]

/-- **Literals survive printing.** A pattern that does not end in a backslash of
its own is printed as a literal that is read up to its end, as the pattern with
a backslash before each quote that is not escaped. That is the pattern itself if
and only if it has no such quote, and it is printed like the pattern. Patterns
that were read, be it of a literal or as part of a grammar, have no such quote
and no such end, so they are printed as they are and read again. -/
theorem literals_survive (pattern : List Char) :
    (¬ EndsInBackslash pattern → ∀ place rest,
        readLiteral ⟨writeLiteral pattern ++ rest, place⟩
        = .ok (String.ofList (withQuotesEscaped pattern),
          ⟨rest, place.past (writeLiteral pattern)⟩))
      ∧ (withQuotesEscaped pattern = pattern ↔ ¬ HasBareQuote pattern)
      ∧ writeLiteral (withQuotesEscaped pattern) = writeLiteral pattern
      ∧ (∀ cur text next, readLiteral cur = .ok (text, next) → Survives text)
      ∧ ∀ text ds, (Reading.ofText text).result = .ok ds → ∀ d ∈ ds,
      ∀ read ∈ d.patterns, Survives read := by
  refine ⟨fun closed => readLiteral_writeLiteral_eq closed,
    withQuotesEscaped_eq_self_iff, ?_, ?_, ?_⟩
  · rw [writeLiteral, writeLiteral,
      ← escapeQuotes_eq_withQuotesEscaped, escapeQuotes_escapeQuotes]
  · intro cur text next read
    exact survives_of_isQuotable (isQuotable_of_readLiteral read).1
  · intro text ds read d mem pattern inside
    have writable :=
      ((areWritable_iff List.nodup_nil).mp (areWritable_of_result read)).1 d mem
    exact survives_of_isQuotable (writable.isQuotable pattern inside)

end Lexigram
