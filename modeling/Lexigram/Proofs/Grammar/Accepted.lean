import Lexigram.Proofs.Grammar.Written

/-!
Every text in the notation is read as the definitions it has. A sequence is read
into the body in progress, whatever has been read before and whatever stands
behind, but that nothing behind may look like the suffix of a group.
-/

namespace Lexigram

open Text

/-! ## The cursor -/

namespace Cursor

/-- Blanks and comments need not be skipped together with those behind them. -/
theorem skipTrivia_append {trivia : List Char} (h : IsTrivia trivia)
    (rest : List Char) (p : Place) :
    skipTrivia ⟨trivia ++ rest, p⟩ = skipTrivia ⟨rest, p.past trivia⟩ := by
  simp only [skipTrivia, h.spanTrivia_append, Place.past_append]

theorem skipTrivia_of_not {c : Char} (blank : isBlank c = false)
    (comment : c ≠ '#') (cs : List Char) (p : Place) :
    skipTrivia ⟨c :: cs, p⟩ = ⟨c :: cs, p⟩ := by
  simp [skipTrivia, spanTrivia, blank, comment]

/-- Only the characters that hold are skipped. -/
theorem skipWhile_append {p : Char → Bool}
    {cs : List Char} (all : ∀ c ∈ cs, p c = true) {rest : List Char}
    (stops : ∀ c ∈ rest.head?, p c = false) (place : Place) :
    skipWhile ⟨cs ++ rest, place⟩ p = ⟨rest, place.past cs⟩ := by
  have drop : rest.dropWhile p = rest := by
    cases rest with
    | nil => rfl
    | cons c rest => simp [stops c rfl]
  have take : rest.takeWhile p = [] := by
    cases rest with
    | nil => rfl
    | cons c rest => simp [stops c rfl]
  simp only [skipWhile, List.dropWhile_append_of_pos all,
    List.takeWhile_append_of_pos all, drop, take, List.append_nil]

/-- Blanks may be skipped before blanks and comments are. -/
theorem skipTrivia_skipWhile (cur : Cursor) :
    (cur.skipWhile isBlank).skipTrivia = cur.skipTrivia := by
  have blanks : ∀ c ∈ cur.rest.takeWhile isBlank, isBlank c = true :=
    List.all_eq_true.mp List.all_takeWhile
  have whole := skipTrivia_append (isTrivia_of_isBlank blanks)
    (cur.rest.dropWhile isBlank) cur.place
  rw [List.takeWhile_append_dropWhile] at whole
  exact whole.symm

end Cursor

/-! ## Names and literals -/

theorem isBlank_of_isNameChar {c : Char} (h : isNameChar c = true) :
    isBlank c = false := by
  simp only [isNameChar, Unicode.isAsciiAlphanumeric, Bool.or_eq_true,
    Bool.and_eq_true, decide_eq_true_eq, beq_iff_eq] at h
  simp only [isBlank]
  rcases h with (h | rfl) | rfl
  · simp
    omega
  · decide
  · decide

theorem isSpace_of_isNameChar {c : Char} (h : isNameChar c = true) :
    isSpace c = false := by
  simp [isSpace, isBlank_of_isNameChar h]

theorem isNameChar_of_isSpace {c : Char} (h : isSpace c = true) :
    isNameChar c = false :=
  Bool.eq_false_iff.mpr fun named =>
    absurd h (by simp [isSpace_of_isNameChar named])

/-- The first character of a name is no space and no mark. -/
theorem IsName.exists_cons {name : String} (h : IsName name) :
    ∃ c cs, name.toList = c :: cs ∧ isSpace c = false ∧ c ≠ '!' ∧ c ≠ '#' := by
  obtain ⟨c, cs, eq⟩ := List.exists_cons_of_ne_nil h.1
  have nameChar : isNameChar c = true := h.2 c (by simp [eq])
  refine ⟨c, cs, eq, isSpace_of_isNameChar nameChar, ?_, ?_⟩
  · rintro rfl; revert nameChar; decide +revert
  · rintro rfl; revert nameChar; decide +revert

/-- A name is read up to the bracket behind it, and the spaces between them. -/
theorem readName_of_isName {name : String} (h : IsName name)
    {spaces : List Char} (all : ∀ c ∈ spaces, isSpace c = true) (p : Place)
    (rest : List Char) :
    ∃ p', readName ⟨name.toList ++ (spaces ++ '>' :: rest), p⟩
      = .ok (name, ⟨rest, p'⟩) := by
  have stops : ∀ c ∈ (spaces ++ '>' :: rest).head?, isNameChar c = false := by
    cases spaces with
    | nil => rintro c ⟨⟩; decide
    | cons c spaces =>
      rintro _ ⟨⟩; exact isNameChar_of_isSpace (all c List.mem_cons_self)
  have behind := Cursor.skipWhile_append h.2 stops p
  have bracket : ∀ c ∈ ('>' :: rest).head?, isSpace c = false := by
    rintro c ⟨⟩
    decide
  have close := Cursor.skipWhile_append all bracket (p.past name.toList)
  have take : (name.toList ++ (spaces ++ '>' :: rest)).takeWhile isNameChar
      = name.toList := by
    have before := List.takeWhile_append_dropWhile (p := isNameChar)
      (l := name.toList ++ (spaces ++ '>' :: rest))
    rw [show (name.toList ++ (spaces ++ '>' :: rest)).dropWhile isNameChar
      = spaces ++ '>' :: rest from congrArg Cursor.rest behind] at before
    exact List.append_cancel_right before
  refine ⟨((p.past name.toList).past spaces).past ['>'], ?_⟩
  simp only [readName, behind, close, take, List.isEmpty_iff, h.1,
    if_false, String.ofList_toList]
  rfl

/-- A quotable pattern is read between its quotes. -/
theorem readLiteral_of_isPatternText {pattern : String}
    (h : IsPatternText pattern.toList) (p : Place) (rest : List Char) :
    ∃ p', readLiteral ⟨'"' :: (pattern.toList ++ '"' :: rest), p⟩
      = .ok (pattern, ⟨rest, p'⟩) := by
  obtain ⟨p', eq⟩ := readLiteral_of_isQuotable h.isQuotable p rest
  refine ⟨p', ?_⟩
  rw [writeLiteral, h.isQuotable.1] at eq
  simpa using eq

/-! ## Sequences -/

section Body

variable {rule : String} {b : Body}

theorem readBody_of_more {cur next : Cursor} {b' : Body}
    (step : readElement rule b cur = .ok (.more b' next)) :
    readBody rule b cur = readBody rule b' next := by
  rw [readBody.eq_def]
  split <;> simp_all

theorem readBody_of_done {cur next : Cursor}
    {alternatives : List (Alternative String)}
    (step : readElement rule b cur = .ok (.done alternatives next)) :
    readBody rule b cur = .ok (alternatives, next) := by
  rw [readBody.eq_def]
  split <;> simp_all

/-- Only what stands behind blanks and comments counts. -/
theorem readBody_congr {cur cur' : Cursor}
    (same : cur.skipTrivia = cur'.skipTrivia) :
    readBody rule b cur = readBody rule b cur' := by
  have step : readElement rule b cur = readElement rule b cur' := by
    simp only [readElement, same]
  cases element : readElement rule b cur' with
  | error e =>
    rw [element] at step
    rw [readBody.eq_def rule b cur, readBody.eq_def rule b cur']
    split <;> split <;> simp_all
  | ok found =>
    rw [element] at step
    cases found with
    | more b' next => rw [readBody_of_more step, readBody_of_more element]
    | done alternatives next =>
      rw [readBody_of_done step, readBody_of_done element]

/-- Whether no suffix of a group can be read at the front of a text. -/
def NoSuffix (cs : List Char) : Prop :=
  (cs.dropWhile isBlank).head?.bind Multiplicity.ofSuffix? = none

theorem noSuffix_cons {c : Char} (blank : isBlank c = false)
    (other : Multiplicity.ofSuffix? c = none) (cs : List Char) :
    NoSuffix (c :: cs) := by
  simp [NoSuffix, blank, other]

theorem IsTrivia.noSuffix {cs rest : List Char} (h : IsTrivia cs)
    (behind : NoSuffix rest) :
    NoSuffix (cs ++ rest) := by
  induction h with
  | nil => exact behind
  | blank blank _ ih => simpa [NoSuffix, blank] using ih
  | comment => exact noSuffix_cons (by decide) (by decide) _

theorem IsTrivia.head?_ne {cs rest : List Char} (h : IsTrivia cs)
    (behind : rest.head? ≠ some '=') :
    (cs ++ rest).head? ≠ some '=' := by
  cases h with
  | nil => exact behind
  | blank blank =>
    rintro ⟨⟩
    revert blank
    decide
  | comment => simp

/-- No sequence looks like a suffix. -/
theorem IsSequence.noSuffix {ts : List (Token String)} {cs rest : List Char}
    (h : IsSequence ts cs) (behind : NoSuffix rest) :
    NoSuffix (cs ++ rest) := by
  induction h generalizing rest with
  | trivia trivia => exact trivia.noSuffix behind
  | reference tag => cases tag; exact noSuffix_cons (by decide) (by decide) _
  | literal => exact noSuffix_cons (by decide) (by decide) _
  | group => exact noSuffix_cons (by decide) (by decide) _
  | append _ _ first second =>
    rw [List.append_assoc]; exact first (second behind)

theorem readBody_reference (rule : String) (b : Body) {name : String}
    {cs : List Char} (h : IsTag .none name cs) (place : Place)
    (rest : List Char) :
    ∃ place', readBody rule b ⟨cs ++ rest, place⟩
      = readBody rule (b.push (.reference name)) ⟨rest, place'⟩ := by
  cases h with
  | @intro before behind spaces isName spaces' =>
    have text : '<' :: (before
        ++ (Mark.none.text ++ (name.toList ++ (behind ++ ['>'])))) ++ rest
        = '<' :: (before ++ (name.toList ++ (behind ++ '>' :: rest))) := by
      simp [Mark.text]
    obtain ⟨c, tail, eq, notSpace, -, -⟩ := isName.exists_cons
    have inside : (Cursor.advance ⟨'<' :: (before ++
        (name.toList ++ (behind ++ '>' :: rest))), place⟩ 1).skipWhile isSpace
        = ⟨name.toList ++ (behind ++ '>' :: rest),
          (place.past ['<']).past before⟩ :=
      Cursor.skipWhile_append spaces (by rw [eq]; rintro _ ⟨⟩; exact notSpace) _
    obtain ⟨place', read⟩ :=
      readName_of_isName isName spaces' ((place.past ['<']).past before) rest
    refine ⟨place', readBody_of_more ?_⟩
    have here : Cursor.skipTrivia
        ⟨'<' :: (before ++ (name.toList ++ (behind ++ '>' :: rest))), place⟩ =
        ⟨'<' :: (before ++ (name.toList ++ (behind ++ '>' :: rest))), place⟩ :=
      Cursor.skipTrivia_of_not (by decide) (by decide) _ _
    rw [text, readElement, here]
    simp only [if_true, inside, read]
    rfl

theorem readBody_literal (rule : String) (b : Body) {p : String}
    (h : IsPatternText p.toList) (place : Place) (rest : List Char) :
    ∃ place', readBody rule b ⟨'"' :: (p.toList ++ '"' :: rest), place⟩
      = readBody rule (b.push (.literal p)) ⟨rest, place'⟩ := by
  obtain ⟨place', eq⟩ := readLiteral_of_isPatternText h place rest
  refine ⟨place', readBody_of_more ?_⟩
  have here : Cursor.skipTrivia ⟨'"' :: (p.toList ++ '"' :: rest), place⟩
      = ⟨'"' :: (p.toList ++ '"' :: rest), place⟩ :=
    Cursor.skipTrivia_of_not (by decide) (by decide) _ _
  rw [readElement, here]
  simp only [eq]
  rfl

theorem readBody_open (rule : String) (b : Body) (place : Place)
    (rest : List Char) :
    ∃ place', readBody rule b ⟨'\x7b' :: rest, place⟩
      = readBody rule (b.openGroup place) ⟨rest, place'⟩ := by
  have here : Cursor.skipTrivia ⟨'\x7b' :: rest, place⟩
      = ⟨'\x7b' :: rest, place⟩ :=
    Cursor.skipTrivia_of_not (by decide) (by decide) _ _
  refine ⟨place.past ['\x7b'], readBody_of_more ?_⟩
  rw [readElement, here]
  rfl

/-- The suffix of a group is read behind its closing bracket. -/
theorem readSuffix_of_isGroupSuffix {m : Multiplicity} {suffix : List Char}
    (h : IsGroupSuffix m suffix) (place : Place) {rest : List Char}
    (none : NoSuffix rest) :
    ∃ place', (readSuffix ⟨'\x7d' :: (suffix ++ rest), place⟩).1 = m
      ∧ (readSuffix ⟨'\x7d' :: (suffix ++ rest), place⟩).2.skipTrivia
      = Cursor.skipTrivia ⟨rest, place'⟩ := by
  cases h with
  | none =>
    -- without a suffix the blanks behind the group are read along with it
    have absent :
        (((Cursor.advance ⟨'\x7d' :: rest, place⟩ 1).skipWhile
            isBlank).rest.head?.bind Multiplicity.ofSuffix?)
          = Option.none := none
    refine ⟨place.past ['\x7d'], ?_⟩
    simp only [List.nil_append, readSuffix, absent, true_and]
    exact Cursor.skipTrivia_skipWhile _
  | @char _ c blanks all suffix =>
    have notBlank : isBlank c = false := by
      unfold Multiplicity.ofSuffix? at suffix
      split at suffix
      · decide
      · decide
      · decide
      · cases suffix
    have behind :
        (Cursor.advance ⟨'\x7d' :: (blanks ++ c :: rest), place⟩ 1).skipWhile
            isBlank
          = ⟨c :: rest, (place.past ['\x7d']).past blanks⟩ :=
      Cursor.skipWhile_append all (by rintro _ ⟨⟩; exact notBlank) _
    refine ⟨((place.past ['\x7d']).past blanks).past [c], ?_⟩
    simp only [List.append_assoc, List.singleton_append, readSuffix, behind,
      List.head?_cons, Option.bind_some, suffix, true_and]
    rfl

theorem readBody_close (rule : String)
    (b : Body) {opened : List (Place × List (Token String))} {start : Place}
    {outer : List (Token String)} (isOpen : b.opened = (start, outer) :: opened)
    (place : Place) {m : Multiplicity} {suffix : List Char}
    (h : IsGroupSuffix m suffix) {rest : List Char} (none : NoSuffix rest) :
    ∃ place', readBody rule b ⟨'\x7d' :: (suffix ++ rest), place⟩ = readBody
      rule { b with opened, current := .group m b.current.reverse :: outer }
      ⟨rest, place'⟩ := by
  have here : Cursor.skipTrivia ⟨'\x7d' :: (suffix ++ rest), place⟩
      = ⟨'\x7d' :: (suffix ++ rest), place⟩ :=
    Cursor.skipTrivia_of_not (by decide) (by decide) _ _
  obtain ⟨place', times, behind⟩ := readSuffix_of_isGroupSuffix h place none
  refine ⟨place', Eq.trans (readBody_of_more ?_) (readBody_congr behind)⟩
  rw [readElement, here]
  simp only [isOpen, times]
  rfl

/-- A sequence is read into the body in progress. -/
theorem IsSequence.readBody_eq (rule : String) {ts : List (Token String)}
    {cs : List Char} (h : IsSequence ts cs) (b : Body) (place : Place)
    {rest : List Char} (none : NoSuffix rest) :
    ∃ place', readBody rule b ⟨cs ++ rest, place⟩
      = readBody rule { b with current := ts.reverse ++ b.current }
      ⟨rest, place'⟩ := by
  induction h generalizing b place rest with
  | trivia trivia =>
    exact ⟨_, readBody_congr (Cursor.skipTrivia_append trivia rest place)⟩
  | reference tag => exact readBody_reference rule b tag place rest
  | @literal p pattern =>
    obtain ⟨place', read⟩ := readBody_literal rule b pattern place rest
    refine ⟨place', ?_⟩
    simpa [Body.push] using read
  | @group ts m inside suffix _ isSuffix ih =>
    have text : '\x7b' :: (inside ++ '\x7d' :: suffix) ++ rest
        = '\x7b' :: (inside ++ '\x7d' :: (suffix ++ rest)) := by
      simp
    obtain ⟨place₁, opens⟩ :=
      readBody_open rule b place (inside ++ '\x7d' :: (suffix ++ rest))
    have closing : NoSuffix ('\x7d' :: (suffix ++ rest)) :=
      noSuffix_cons (by decide) (by decide) _
    obtain ⟨place₂, reads⟩ := ih (b.openGroup place) place₁ closing
    obtain ⟨place₃, closes⟩ := readBody_close rule { b.openGroup place with
      current := ts.reverse ++ (b.openGroup place).current }
      rfl place₂ isSuffix none
    refine ⟨place₃, ?_⟩
    rw [text, opens, reads, closes]
    simp [Body.openGroup]
  | append _ second ihFirst ihSecond =>
    obtain ⟨place₁, first⟩ := ihFirst b place (second.noSuffix none)
    obtain ⟨place₂, others⟩ := ihSecond { b with current := _ } place₁ none
    refine ⟨place₂, ?_⟩
    rw [List.append_assoc, first, others,
      List.reverse_append, List.append_assoc]

/-! ## Alternatives -/

theorem reverse_kept (ts : List (Token String)) :
    (kept ts).reverse = kept ts := by
  unfold kept
  split <;> rfl

/-- Finishing keeps what the sequence in progress stands for. -/
theorem Body.finish_eq (b : Body) :
    b.finish = { b with
      finished := kept b.current.reverse ++ b.finished
      current := [] } := by
  have same : ∀ ts : List (Token String), ts ≠ [] → ts ≠ [.literal ""] →
      kept ts = [ts] := by
    intro ts some other
    unfold kept
    split
    · exact absurd rfl some
    · exact absurd rfl other
    · rfl
  unfold finish
  split
  · next none => simp [none, kept]
  · next empty => simp [empty, kept]
  · next some other =>
    have back : kept b.current.reverse = [b.current.reverse] := by
      refine same _ (by simpa using some) fun eq => other ?_
      simpa using congrArg List.reverse eq
    simp [back]

theorem readBody_bar (rule : String) {b : Body} (closed : b.opened = [])
    (place : Place) (rest : List Char) :
    ∃ place', readBody rule b ⟨'|' :: rest, place⟩
      = readBody rule b.finish ⟨rest, place'⟩ := by
  have here : Cursor.skipTrivia ⟨'|' :: rest, place⟩ = ⟨'|' :: rest, place⟩ :=
    Cursor.skipTrivia_of_not (by decide) (by decide) _ _
  refine ⟨place.past ['|'], readBody_of_more ?_⟩
  rw [readElement, here]
  simp only [closed]
  rfl

theorem readBody_semicolon (rule : String) {b : Body} (closed : b.opened = [])
    (place : Place) (rest : List Char) :
    ∃ place', readBody rule b ⟨';' :: rest, place⟩
      = .ok (b.finish.finished.reverse, ⟨rest, place'⟩) := by
  have here : Cursor.skipTrivia ⟨';' :: rest, place⟩ = ⟨';' :: rest, place⟩ :=
    Cursor.skipTrivia_of_not (by decide) (by decide) _ _
  refine ⟨place.past [';'], readBody_of_done ?_⟩
  rw [readElement, here]
  simp only [closed]
  rfl

/-- Alternatives are read up to the last, which is then in progress. -/
theorem IsAlternatives.readBody_eq (rule : String)
    {as : List (Alternative String)} {cs : List Char} (h : IsAlternatives as cs)
    (place : Place) {rest : List Char} (none : NoSuffix rest) :
    ∃ b place', b.opened = [] ∧ b.finish.finished = as.reverse ∧
      readBody rule .empty ⟨cs ++ rest, place⟩
      = readBody rule b ⟨rest, place'⟩ := by
  induction h generalizing place rest with
  | @sequence ts cs first =>
    obtain ⟨place', read⟩ := first.readBody_eq rule .empty place none
    refine ⟨_, place', rfl, ?_, read⟩
    simp [Body.finish_eq, Body.empty, reverse_kept]
  | @bar as ts cs ds _ last ih =>
    have bar : NoSuffix ('|' :: (ds ++ rest)) :=
      noSuffix_cons (by decide) (by decide) _
    obtain ⟨b, place₁, closed, finished, before⟩ := ih place bar
    obtain ⟨place₂, goesOn⟩ := readBody_bar rule closed place₁ (ds ++ rest)
    obtain ⟨place₃, read⟩ := last.readBody_eq rule b.finish place₂ none
    refine ⟨{ b.finish with current := ts.reverse ++ b.finish.current }, place₃,
      closed, ?_, ?_⟩
    · have new : b.finish.current = [] := rfl
      rw [Body.finish_eq { b.finish with
        current := ts.reverse ++ b.finish.current }]
      simp [new, finished, reverse_kept]
    · rw [List.append_assoc, List.cons_append, before, goesOn, read]

end Body

/-! ## Definitions -/

/-- The first character of a sequence, if it has one, is none of an operator. -/
theorem IsSequence.head?_ne {ts : List (Token String)} {cs rest : List Char}
    (h : IsSequence ts cs) (behind : rest.head? ≠ some '=') :
    (cs ++ rest).head? ≠ some '=' := by
  induction h generalizing rest with
  | trivia trivia => exact trivia.head?_ne behind
  | reference tag => cases tag; simp
  | literal => simp
  | group => simp
  | append _ _ first second =>
    rw [List.append_assoc]; exact first (second behind)

theorem IsAlternatives.head?_ne {as : List (Alternative String)}
    {cs rest : List Char} (h : IsAlternatives as cs)
    (behind : rest.head? ≠ some '=') : (cs ++ rest).head? ≠ some '=' := by
  induction h generalizing rest with
  | sequence first => exact first.head?_ne behind
  | @bar _ _ cs ds _ _ ih =>
    rw [List.append_assoc]
    exact ih (by simp)

/-- The operator that is written is the longest that fits, as none goes on with
what stands behind. -/
theorem readAssignment_of_mem (name : String) {op blanks : List Char}
    (all : ∀ c ∈ blanks, isBlank c = true) (mem : op ∈ assignmentOperators)
    (place : Place) {rest : List Char} (behind : rest.head? ≠ some '=') :
    ∃ place', readAssignment name ⟨blanks ++ (op ++ rest), place⟩
      = .ok ⟨rest, place'⟩ := by
  have starts : ∀ c ∈ (op ++ rest).head?, isBlank c = false := by
    simp only [assignmentOperators, List.mem_cons,
      List.not_mem_nil, or_false] at mem
    rcases mem with rfl | rfl | rfl | rfl | rfl <;> (rintro c ⟨⟩; decide)
  have here : Cursor.skipWhile ⟨blanks ++ (op ++ rest), place⟩ isBlank
      = ⟨op ++ rest, place.past blanks⟩ :=
    Cursor.skipWhile_append all starts place
  have longest : assignmentOperators.find? (·.isPrefixOf (op ++ rest))
      = some op := by
    simp only [assignmentOperators, List.mem_cons,
      List.not_mem_nil, or_false] at mem
    cases rest with
    | nil => rcases mem with rfl | rfl | rfl | rfl | rfl <;> rfl
    | cons c rest =>
      have other : ('=' == c) = false :=
        beq_eq_false_iff_ne.mpr fun same => behind (congrArg some same.symm)
      rcases mem with rfl | rfl | rfl | rfl | rfl
        <;> simp [assignmentOperators, List.isPrefixOf, other]
  refine ⟨(place.past blanks).past op, ?_⟩
  simp only [readAssignment, here, longest, Cursor.advance,
    List.drop_left', List.take_left']

theorem readName_of_isTag {mark : Mark} {name : String} {tag : List Char}
    (h : IsTag mark name tag) (place : Place) (rest : List Char) :
    ∃ atName place',
      readMark ((Cursor.advance ⟨tag ++ rest, place⟩ 1).skipWhile isSpace)
      = (mark, atName)
      ∧ readName atName = .ok (name, ⟨rest, place'⟩) := by
  cases h with
  | @intro before behind spaces isName spaces' =>
    obtain ⟨c, cs, eq, notSpace, bang, hash⟩ := isName.exists_cons
    have stops :
        ∀ c ∈ (mark.text ++ (name.toList ++ (behind ++ '>' :: rest))).head?,
        isSpace c = false := by
      cases mark with
      | none => rw [eq]; rintro _ ⟨⟩; exact notSpace
      | start => rintro _ ⟨⟩; decide
      | parameter => rintro _ ⟨⟩; decide
    have text : '<' ::
        (before ++ (mark.text ++ (name.toList ++ (behind ++ ['>'])))) ++ rest
        = '<' :: (before
          ++ (mark.text ++ (name.toList ++ (behind ++ '>' :: rest)))) := by simp
    have inside : (Cursor.advance ⟨'<' :: (before ++ (mark.text ++
        (name.toList ++ (behind ++ '>' :: rest)))), place⟩ 1).skipWhile isSpace
        = ⟨mark.text ++ (name.toList ++ (behind ++ '>' :: rest)),
          (place.past ['<']).past before⟩ :=
      Cursor.skipWhile_append spaces stops _
    have marked (p : Place) : ∃ p',
        readMark ⟨mark.text ++ (name.toList ++ (behind ++ '>' :: rest)), p⟩
        = (mark, ⟨name.toList ++ (behind ++ '>' :: rest), p'⟩) := by
      cases mark with
      | none => exact ⟨p, by simp [readMark, Mark.text, eq, bang, hash]⟩
      | start => exact ⟨_, rfl⟩
      | parameter => exact ⟨_, rfl⟩
    obtain ⟨place₁, isMarked⟩ := marked ((place.past ['<']).past before)
    obtain ⟨place₂, read⟩ := readName_of_isName isName spaces' place₁ rest
    exact ⟨_, place₂, by rw [text, inside, isMarked], read⟩

theorem readValue_of_isPatternText (key : String)
    {value : String} {before behind : List Char} (trivia : IsTrivia before)
    (h : IsPatternText value.toList) (trivia' : IsTrivia behind) (place : Place)
    (rest : List Char) :
    ∃ place', readValue key ⟨before ++ '"' ::
      (value.toList ++ '"' :: (behind ++ ';' :: rest)), place⟩
      = .ok (.parameter key value, ⟨rest, place'⟩) := by
  have here : Cursor.skipTrivia ⟨before ++ '"' ::
      (value.toList ++ '"' :: (behind ++ ';' :: rest)), place⟩
      = ⟨'"' :: (value.toList ++ '"' :: (behind ++ ';' :: rest)),
        place.past before⟩ :=
    (Cursor.skipTrivia_append trivia _ _).trans
      (Cursor.skipTrivia_of_not (by decide) (by decide) _ _)
  obtain ⟨place₁, read⟩ :=
    readLiteral_of_isPatternText h (place.past before) (behind ++ ';' :: rest)
  have ends : Cursor.skipTrivia ⟨behind ++ ';' :: rest, place₁⟩
      = ⟨';' :: rest, place₁.past behind⟩ :=
    (Cursor.skipTrivia_append trivia' _ _).trans
      (Cursor.skipTrivia_of_not (by decide) (by decide) _ _)
  refine ⟨(place₁.past behind).past [';'], ?_⟩
  rw [readValue, here]
  simp only [read, bind, Except.bind, ends]
  rfl

theorem readRule_of_isAlternatives {known : List String} (start : Place)
    {name : String} (marked : Bool) {as : List (Alternative String)}
    {cs : List Char} (new : name ∉ known) (h : IsAlternatives as cs)
    (some : as ≠ []) (place : Place) (rest : List Char) :
    ∃ place', readRule known start name marked ⟨cs ++ ';' :: rest, place⟩
      = .ok (.rule name marked as, ⟨rest, place'⟩) := by
  have ending : NoSuffix (';' :: rest) :=
    noSuffix_cons (by decide) (by decide) _
  obtain ⟨b, place₁, closed, finished, read⟩ := h.readBody_eq name place ending
  obtain ⟨place₂, ends⟩ := readBody_semicolon name closed place₁ rest
  rw [finished, List.reverse_reverse] at ends
  refine ⟨place₂, ?_⟩
  have absent : known.contains name = false := by simpa using new
  simp only [readRule, absent, read, ends, bind, Except.bind, List.isEmpty_iff,
    some, if_false]
  rfl

/-- A definition is read, if its rule is not known yet. -/
theorem IsDefinition.readDefinition_eq {known : List String}
    {d : Definition} {cs : List Char} (h : IsDefinition d cs)
    (new : ∀ name ∈ d.ruleName?, name ∉ known) (place : Place)
    (rest : List Char) :
    ∃ place', readDefinition known ⟨cs ++ rest, place⟩
      = .ok (d, ⟨rest, place'⟩) := by
  cases h with
  | @rule name start as tag blanks op body isTag all mem isAlternatives some =>
    obtain ⟨atName, place₁, marked, named⟩ :=
      readName_of_isTag isTag place (blanks ++ (op ++ (body ++ ';' :: rest)))
    have notOperator : (body ++ ';' :: rest).head? ≠ Option.some '=' :=
      isAlternatives.head?_ne (by simp)
    obtain ⟨place₂, assigned⟩ :=
      readAssignment_of_mem name all mem place₁ notOperator
    obtain ⟨place₃, read⟩ := readRule_of_isAlternatives place start
      (new name rfl) isAlternatives some place₂ rest
    refine ⟨place₃, ?_⟩
    have text : tag ++ (blanks ++ (op ++ (body ++ [';']))) ++ rest
        = tag ++ (blanks ++ (op ++ (body ++ ';' :: rest))) := by simp
    rw [text, readDefinition, marked]
    simp only [named, assigned, bind, Except.bind]
    cases start <;> exact read
  | @parameter key value tag blanks op before behind isTag all mem trivia
      isPattern trivia' =>
    obtain ⟨atName, place₁, marked, named⟩ :=
      readName_of_isTag isTag place (blanks ++ (op
        ++ (before ++ '"' :: (value.toList ++ '"' :: (behind ++ ';' :: rest)))))
    have notOperator : (before ++ '"' ::
        (value.toList ++ '"' :: (behind ++ ';' :: rest))).head? ≠ some '=' :=
      trivia.head?_ne (by simp)
    obtain ⟨place₂, assigned⟩ :=
      readAssignment_of_mem key all mem place₁ notOperator
    obtain ⟨place₃, read⟩ :=
      readValue_of_isPatternText key trivia isPattern trivia' place₂ rest
    refine ⟨place₃, ?_⟩
    have text : tag ++ (blanks ++ (op ++
        (before ++ '"' :: (value.toList ++ '"' :: (behind ++ [';']))))) ++ rest
        = tag ++ (blanks ++ (op ++ (before ++ '"' ::
          (value.toList ++ '"' :: (behind ++ ';' :: rest))))) := by simp
    rw [text, readDefinition, marked]
    simp only [named, assigned, bind, Except.bind, if_true]
    exact read

theorem IsDefinition.exists_cons {d : Definition} {cs : List Char}
    (h : IsDefinition d cs) :
    ∃ tail, cs = '<' :: tail := by
  cases h with
  | rule isTag => cases isTag; exact ⟨_, rfl⟩
  | parameter isTag => cases isTag; exact ⟨_, rfl⟩

/-! ## Texts -/

theorem readAll_of_end {known : List String} {cur : Cursor}
    (done : cur.skipTrivia.rest = []) :
    readAll known cur = ⟨[], none⟩ := by
  rw [readAll.eq_def]
  dsimp only
  split <;> simp_all

theorem readAll_of_definition {known : List String} {cur next : Cursor}
    {cs : List Char} {d : Definition} (here : cur.skipTrivia.rest = '<' :: cs)
    (read : readDefinition known cur.skipTrivia = .ok (d, next)) :
    readAll known cur = { readAll (d.ruleName?.toList ++ known) next with
      definitions :=
        d :: (readAll (d.ruleName?.toList ++ known) next).definitions } := by
  rw [readAll.eq_def]
  dsimp only
  split
  · simp_all
  · split <;> simp_all
  · simp_all

/-- The names of rules one definition adds to those that are known stand behind
those of the definitions that follow. -/
theorem nodup_ruleNames_cons {known : List String} {d : Definition}
    {ds : List Definition} :
    ((d :: ds).filterMap Definition.ruleName? ++ known).Nodup
      ↔ (ds.filterMap Definition.ruleName?
        ++ (d.ruleName?.toList ++ known)).Nodup := by
  rw [← List.append_assoc]
  refine (List.Perm.append_right known ?_).nodup_iff
  cases name : d.ruleName? with
  | none => simp [name]
  | some name' =>
    have moved : (ds.filterMap Definition.ruleName? ++ [name']).Perm
        ([name'] ++ ds.filterMap Definition.ruleName?) :=
      List.perm_append_comm
    simpa [name] using moved.symm

/-- A text in the notation is read as the definitions it has, if none of its
rules is known or defined twice. -/
theorem IsGrammarText.readAll_eq {known : List String}
    {ds : List Definition} {cs : List Char} (h : IsGrammarText ds cs)
    (distinct : (ds.filterMap Definition.ruleName? ++ known).Nodup)
    (place : Place) :
    readAll known ⟨cs, place⟩ = ⟨ds, none⟩ := by
  induction h generalizing known place with
  | ending ending =>
    exact readAll_of_end (by rw [Cursor.skipTrivia, ending.spanTrivia_eq])
  | @definition d ds trivia cs rest isTrivia isDefinition _ ih =>
    rw [nodup_ruleNames_cons] at distinct
    obtain ⟨tail, starts⟩ := isDefinition.exists_cons
    have here : Cursor.skipTrivia ⟨trivia ++ (cs ++ rest), place⟩
        = ⟨cs ++ rest, place.past trivia⟩ := by
      rw [Cursor.skipTrivia_append isTrivia, starts]
      exact Cursor.skipTrivia_of_not (by decide) (by decide) _ _
    have new : ∀ name ∈ d.ruleName?, name ∉ known := by
      rintro name named
      have own := (List.nodup_append.mp distinct).2.1
      rw [show d.ruleName? = some name from named, Option.toList_some,
        List.singleton_append, List.nodup_cons] at own
      exact own.1
    obtain ⟨place', read⟩ :=
      isDefinition.readDefinition_eq new (place.past trivia) rest
    rw [readAll_of_definition (by rw [here, starts]; rfl)
      (by rw [here]; exact read), ih distinct]

end Lexigram
