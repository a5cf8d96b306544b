import Lexigram.Proofs.Grammar.Accepted

/-!
What is read has a text in the notation: each reading function takes a part of
the notation off the front of the text. While alternatives are read, the body in
progress has the text that was read so far, where the groups that are open still
want their ends.
-/

namespace Lexigram

open Text

/-! ## Parts -/

namespace Cursor

theorem rest_advance {cur : Cursor} {c : Char} {cs : List Char}
    (here : cur.rest = c :: cs) :
    (cur.advance 1).rest = cs := by
  simp [advance, here]

theorem exists_skipWhile (cur : Cursor) (p : Char → Bool) :
    ∃ cs, cur.rest = cs ++ (cur.skipWhile p).rest ∧ ∀ c ∈ cs, p c = true :=
  ⟨_, List.takeWhile_append_dropWhile.symm,
    List.all_eq_true.mp List.all_takeWhile⟩

theorem exists_skipTrivia (cur : Cursor) :
    ∃ cs, cur.rest = cs ++ cur.skipTrivia.rest ∧
      (IsTrivia cs ∨ IsEnding cs ∧ cur.skipTrivia.rest = []) :=
  ⟨_, (spanTrivia_append false cur.rest).symm,
    (isTrivia_or_isEnding_spanTrivia cur.rest).1⟩

/-- Blanks and comments in front of something end with it. -/
theorem exists_trivia {cur : Cursor} {c : Char} {cs : List Char}
    (here : cur.skipTrivia.rest = c :: cs) :
    ∃ trivia, cur.rest = trivia ++ c :: cs ∧ IsTrivia trivia := by
  obtain ⟨trivia, eq, isTrivia | ⟨-, done⟩⟩ := cur.exists_skipTrivia
  · exact ⟨trivia, here ▸ eq, isTrivia⟩
  · rw [here] at done
    cases done

end Cursor

theorem text_of_readName {cur next : Cursor} {name : String}
    (h : readName cur = .ok (name, next)) :
    IsName name ∧ ∃ spaces, cur.rest
      = name.toList ++ (spaces ++ '>' :: next.rest)
      ∧ ∀ c ∈ spaces, isSpace c = true := by
  obtain ⟨spaces, eq, all⟩ :=
    (cur.skipWhile isNameChar).exists_skipWhile isSpace
  have before : cur.rest = cur.rest.takeWhile isNameChar
      ++ (cur.skipWhile isNameChar).rest :=
    List.takeWhile_append_dropWhile.symm
  simp only [readName] at h
  split at h
  · cases h
  · next tail close =>
    split at h
    · cases h
    · next nonempty =>
      obtain ⟨rfl, rfl⟩ := Prod.mk.inj (Except.ok.inj h)
      rw [eq, close] at before
      refine ⟨⟨by simpa using nonempty, ?_⟩, spaces, ?_, all⟩
      · rw [String.toList_ofList]
        exact List.all_eq_true.mp List.all_takeWhile
      · rw [String.toList_ofList, Cursor.rest_advance close]
        exact before
  · cases h

theorem text_of_readLiteral {cur next : Cursor} {cs : List Char} {text : String}
    (here : cur.rest = '"' :: cs) (h : readLiteral cur = .ok (text, next)) :
    IsPatternText text.toList ∧ cur.rest = '"' ::
      (text.toList ++ '"' :: next.rest) := by
  obtain ⟨quotable, inside⟩ := isQuotable_of_readLiteral h
  rw [Cursor.rest_advance here] at inside
  rw [here, inside]
  exact ⟨isPatternText_iff.mpr quotable, rfl⟩

theorem text_of_readSuffix {cur : Cursor} {cs : List Char}
    (here : cur.rest = '\x7d' :: cs) :
    ∃ suffix blanks, cs = suffix ++ (blanks ++ (readSuffix cur).2.rest)
      ∧ IsGroupSuffix (readSuffix cur).1 suffix
      ∧ ∀ c ∈ blanks, isBlank c = true := by
  obtain ⟨blanks, eq, all⟩ := (cur.advance 1).exists_skipWhile isBlank
  rw [Cursor.rest_advance here] at eq
  unfold readSuffix
  simp only
  split
  · next m suffix =>
    obtain ⟨c, first, isSuffix⟩ := Option.bind_eq_some_iff.mp suffix
    obtain ⟨tail, starts⟩ := List.head?_eq_some_iff.mp first
    refine ⟨blanks ++ [c], [], ?_, .char all isSuffix, List.forall_mem_nil _⟩
    rw [eq, starts, Cursor.rest_advance starts]
    simp
  · exact ⟨[], blanks, eq, .none, all⟩

/-! ## Steps -/

/-- What a step of reading alternatives can come to, with `cur` behind the
blanks and comments. -/
inductive StepOutcome (rule : String) (b : Body) (cur : Cursor) :
    Except ReadError BodyStep → Prop
  | missingTerminator : cur.rest = [] → b.opened = [] →
      StepOutcome rule b cur (.error ⟨cur.place, .missingTerminator rule⟩)
  | unterminatedGroup {place : Place} {outer : List (Token String)}
      {opened : List (Place × List (Token String))} :
      cur.rest = [] → b.opened = (place, outer) :: opened →
        StepOutcome rule b cur (.error ⟨place, .unterminatedGroup⟩)
  | badName {cs : List Char} {e : ReadError} : cur.rest = '<' :: cs →
      readName ((cur.advance 1).skipWhile isSpace) = .error e →
      StepOutcome rule b cur (.error e)
  | reference {cs : List Char} {name : String} {next : Cursor} :
      cur.rest = '<' :: cs →
        readName ((cur.advance 1).skipWhile isSpace) = .ok (name, next) →
        StepOutcome rule b cur (.ok (.more (b.push (.reference name)) next))
  | badLiteral {cs : List Char} {e : ReadError} :
      cur.rest = '"' :: cs → readLiteral cur = .error e →
        StepOutcome rule b cur (.error e)
  | literal {cs : List Char} {p : String} {next : Cursor} :
      cur.rest = '"' :: cs → readLiteral cur = .ok (p, next) →
        StepOutcome rule b cur (.ok (.more (b.push (.literal p)) next))
  | openGroup {cs : List Char} : cur.rest = '\x7b' :: cs →
      StepOutcome rule b cur (.ok (.more (b.openGroup cur.place)
        (cur.advance 1)))
  | bar {cs : List Char} : cur.rest = '|' :: cs → b.opened = [] →
      StepOutcome rule b cur (.ok (.more b.finish (cur.advance 1)))
  | semicolon {cs : List Char} : cur.rest = ';' :: cs → b.opened = [] →
      StepOutcome rule b cur (.ok (.done b.finish.finished.reverse
        (cur.advance 1)))
  | closeGroup {cs : List Char} {place : Place} {outer : List (Token String)}
      {opened : List (Place × List (Token String))} :
      cur.rest = '\x7d' :: cs → b.opened = (place, outer) :: opened →
        StepOutcome rule b cur (.ok (.more { b with
          opened
          current := .group (readSuffix cur).1 b.current.reverse :: outer }
          (readSuffix cur).2))
  | unexpected {c : Char} {cs : List Char} : cur.rest = c :: cs →
      StepOutcome rule b cur (.error ⟨cur.place, .unexpectedCharacter c⟩)

theorem stepOutcome_readElement (rule : String) (b : Body) (before : Cursor) :
    StepOutcome rule b before.skipTrivia (readElement rule b before) := by
  simp only [readElement]
  split
  · next done =>
    split
    · next closed => exact .missingTerminator done closed
    · next isOpen => exact .unterminatedGroup done isOpen
  next c tail here =>
  split
  · next bracket =>
    subst bracket
    cases name : readName ((before.skipTrivia.advance 1).skipWhile isSpace) with
    | error e => exact .badName here name
    | ok found => exact .reference here name
  split
  · next quote =>
    subst quote
    cases literal : readLiteral before.skipTrivia with
    | error e => exact .badLiteral here literal
    | ok found => exact .literal here literal
  split
  · next brace =>
    subst brace
    exact .openGroup here
  split
  · next closed =>
    split
    · next bar =>
      subst bar
      exact .bar here closed
    split
    · next semicolon =>
      subst semicolon
      exact .semicolon here closed
    · exact .unexpected here
  · next isOpen =>
    split
    · next brace =>
      subst brace
      exact .closeGroup here isOpen
    · exact .unexpected here

theorem StepOutcome.exists_cons {rule : String} {b : Body} {cur : Cursor}
    {step : BodyStep} (h : StepOutcome rule b cur (.ok step)) :
    ∃ c cs, cur.rest = c :: cs := by
  cases h with
  | reference here => exact ⟨_, _, here⟩
  | literal here => exact ⟨_, _, here⟩
  | openGroup here => exact ⟨_, _, here⟩
  | bar here => exact ⟨_, _, here⟩
  | semicolon here => exact ⟨_, _, here⟩
  | closeGroup here => exact ⟨_, _, here⟩

/-! ## Alternatives -/

/-- Whether a body in progress may have been read of a text: its alternatives
and the sequences around it, each up to the bracket that opens a group, have
been written before the sequence in progress. -/
inductive Body.HasText : Body → List Char → Prop
  | first {current : List (Token String)} {cs : List Char} :
      IsSequence current.reverse cs →
        HasText ⟨[], [], current⟩ cs
  | next {finished : List (Alternative String)} {current : List (Token String)}
      {before cs : List Char} :
      IsAlternatives finished.reverse before → IsSequence current.reverse cs →
      HasText ⟨finished, [], current⟩ (before ++ '|' :: cs)
  | inside {finished : List (Alternative String)}
      {opened : List (Place × List (Token String))}
      {p : Place} {outer current : List (Token String)}
      {before cs : List Char} : HasText ⟨finished, opened, outer⟩ before →
      IsSequence current.reverse cs →
      HasText ⟨finished, (p, outer) :: opened, current⟩ (before ++ '\x7b' :: cs)

namespace Body.HasText

variable {b : Body} {cs : List Char}

theorem empty : Body.empty.HasText [] :=
  .first (.trivia .nil)

/-- The sequence in progress goes on. -/
theorem append (h : b.HasText cs) {ts : List (Token String)} {ds : List Char}
    (more : IsSequence ts ds) :
    HasText { b with current := ts.reverse ++ b.current } (cs ++ ds) := by
  have goesOn {current : List (Token String)} {cs : List Char}
    (before : IsSequence current.reverse cs) :
      IsSequence (ts.reverse ++ current).reverse (cs ++ ds) := by
    rw [List.reverse_append, List.reverse_reverse]
    exact before.append more
  cases h with
  | first before => exact .first (goesOn before)
  | next alternatives before =>
    rw [List.append_assoc, List.cons_append]
    exact .next alternatives (goesOn before)
  | inside around before =>
    rw [List.append_assoc, List.cons_append]
    exact .inside around (goesOn before)

theorem isAlternatives (h : b.HasText cs) (closed : b.opened = []) :
    IsAlternatives b.finish.finished.reverse cs := by
  rw [Body.finish_eq, List.reverse_append, reverse_kept]
  cases h with
  | first only => exact .sequence only
  | next alternatives last => exact .bar alternatives last
  | inside => cases closed

theorem finish (h : b.HasText cs) (closed : b.opened = []) :
    b.finish.HasText (cs ++ ['|']) := by
  have alternatives := h.isAlternatives closed
  obtain ⟨finished, opened, current⟩ := b
  obtain rfl : opened = [] := closed
  exact .next alternatives (.trivia .nil)

theorem openGroup (h : b.HasText cs) (p : Place) :
    (b.openGroup p).HasText (cs ++ ['\x7b']) :=
  .inside h (.trivia .nil)

theorem closeGroup (h : b.HasText cs) {place : Place}
    {outer : List (Token String)} {opened : List (Place × List (Token String))}
    (isOpen : b.opened = (place, outer) :: opened) {m : Multiplicity}
    {suffix : List Char} (isSuffix : IsGroupSuffix m suffix) :
    HasText { b with opened, current := .group m b.current.reverse :: outer }
      (cs ++ '\x7d' :: suffix) := by
  cases h with
  | first => cases isOpen
  | next => cases isOpen
  | inside around inside =>
    cases isOpen
    rw [List.append_assoc, List.cons_append]
    exact around.append (inside.group isSuffix)

end Body.HasText

/-- The tag of a reference, whose bracket the text is at, is read as the
reference. -/
theorem isSequence_of_readName {cur next : Cursor} {cs : List Char}
    {name : String} (here : cur.rest = '<' :: cs)
    (h : readName ((cur.advance 1).skipWhile isSpace) = .ok (name, next)) :
    ∃ ds, cur.rest = ds ++ next.rest ∧ IsSequence [.reference name] ds := by
  obtain ⟨spaces, eq, all⟩ := (cur.advance 1).exists_skipWhile isSpace
  obtain ⟨isName, spaces', rest, all'⟩ := text_of_readName h
  rw [Cursor.rest_advance here, rest] at eq
  refine ⟨'<' :: (spaces ++ ([] ++ (name.toList ++ (spaces' ++ ['>'])))), ?_,
    .reference (.intro all isName all')⟩
  rw [here, eq]
  simp

theorem isSequence_of_readLiteral {cur next : Cursor}
    {cs : List Char} {p : String} (here : cur.rest = '"' :: cs)
    (h : readLiteral cur = .ok (p, next)) :
    ∃ ds, cur.rest = ds ++ next.rest ∧ IsSequence [.literal p] ds := by
  obtain ⟨isPattern, rest⟩ := text_of_readLiteral here h
  refine ⟨'"' :: (p.toList ++ ['"']), ?_, .literal isPattern⟩
  rw [rest]
  simp

/-- What a step has read, behind a text that was read before. -/
def BodyStep.HasText (before read : List Char) : BodyStep → Prop
  | .more b next => ∃ cs, read = cs ++ next.rest ∧ b.HasText (before ++ cs)
  | .done alternatives next =>
    ∃ cs, read = cs ++ ';' :: next.rest ∧
      IsAlternatives alternatives (before ++ cs)

namespace BodyStep.HasText

variable {before read : List Char}

/-- What stands in front of a step may count as read by it. -/
theorem behind {trivia : List Char} {step : BodyStep}
    (h : step.HasText (before ++ trivia) read) :
    step.HasText before (trivia ++ read) := by
  cases step with
  | more b next =>
    obtain ⟨cs, eq, has⟩ := h
    exact ⟨trivia ++ cs, by rw [eq, List.append_assoc],
      by rwa [← List.append_assoc]⟩
  | done alternatives next =>
    obtain ⟨cs, eq, isAlternatives⟩ := h
    exact ⟨trivia ++ cs, by rw [eq, List.append_assoc],
      by rwa [← List.append_assoc]⟩

theorem push {b : Body} {next : Cursor}
    {t : Token String} (has : b.HasText before)
    (text : ∃ ds, read = ds ++ next.rest ∧ IsSequence [t] ds) :
    (BodyStep.more (b.push t) next).HasText before read := by
  obtain ⟨ds, eq, isSequence⟩ := text
  exact ⟨ds, eq, has.append isSequence⟩

theorem closeGroup {b : Body} {cur : Cursor} {cs : List Char} {place : Place}
    {outer : List (Token String)} {opened : List (Place × List (Token String))}
    (has : b.HasText before) (isOpen : b.opened = (place, outer) :: opened)
    (here : cur.rest = '\x7d' :: cs) :
    (BodyStep.more { b with
        opened
        current := .group (readSuffix cur).1 b.current.reverse :: outer }
      (readSuffix cur).2).HasText before cur.rest := by
  obtain ⟨suffix, blanks, eq, isSuffix, all⟩ := text_of_readSuffix here
  refine ⟨'\x7d' :: (suffix ++ blanks), ?_, ?_⟩
  · rw [here, eq]
    simp
  · have closed := (has.closeGroup isOpen isSuffix).append
      (.trivia (isTrivia_of_isBlank all))
    simpa using closed

end BodyStep.HasText

theorem StepOutcome.hasText {rule : String}
    {b : Body} {cur : Cursor} {step : BodyStep} {before : List Char}
    (h : StepOutcome rule b cur (.ok step)) (has : b.HasText before) :
    step.HasText before cur.rest := by
  cases h with
  | reference here name => exact .push has (isSequence_of_readName here name)
  | literal here literal =>
    exact .push has (isSequence_of_readLiteral here literal)
  | openGroup here =>
    exact ⟨['\x7b'], by rw [here, Cursor.rest_advance here]; rfl,
      has.openGroup _⟩
  | bar here closed =>
    exact ⟨['|'], by rw [here, Cursor.rest_advance here]; rfl,
      has.finish closed⟩
  | semicolon here closed =>
    exact ⟨[], by rw [here, Cursor.rest_advance here]; rfl,
      by simpa using has.isAlternatives closed⟩
  | closeGroup here isOpen => exact .closeGroup has isOpen here

/-- One step takes blanks and comments, and then a token, the end of a group or
the end of an alternative. -/
theorem hasText_of_readElement {rule : String} {b : Body} {cur : Cursor}
    {step : BodyStep} {before : List Char} (has : b.HasText before)
    (h : readElement rule b cur = .ok step) : step.HasText before cur.rest := by
  have outcome := stepOutcome_readElement rule b cur
  rw [h] at outcome
  obtain ⟨c, tail, here⟩ := outcome.exists_cons
  obtain ⟨trivia, text, isTrivia⟩ := cur.exists_trivia here
  -- what was skipped counts as read by the step, whatever it comes to
  rw [text, ← here]
  exact .behind (outcome.hasText (has.append (.trivia isTrivia)))

theorem isAlternatives_of_readBody {rule : String}
    {b : Body} {cur next : Cursor} {alternatives : List (Alternative String)}
    {before : List Char} (has : b.HasText before)
    (h : readBody rule b cur = .ok (alternatives, next)) :
    ∃ cs, cur.rest = cs ++ ';' :: next.rest ∧
      IsAlternatives alternatives (before ++ cs) := by
  fun_induction readBody rule b cur generalizing before with
  | case1 => cases h
  | case2 b cur alternatives' next' step =>
    cases h
    exact hasText_of_readElement has step
  | case3 b cur b' next' step shorter ih =>
    obtain ⟨cs, eq, has'⟩ := hasText_of_readElement has step
    obtain ⟨ds, eq', alternatives⟩ := ih has' h
    refine ⟨cs ++ ds, ?_, ?_⟩
    · rw [eq, eq', List.append_assoc]
    · rwa [← List.append_assoc]

/-! ## Definitions -/

theorem text_of_readMark (cur : Cursor) :
    cur.rest = (readMark cur).1.text ++ (readMark cur).2.rest := by
  unfold readMark
  split
  · next here => rw [here, Cursor.rest_advance here]; rfl
  · next here => rw [here, Cursor.rest_advance here]; rfl
  · rfl

theorem text_of_readAssignment {name : String} {cur next : Cursor}
    (h : readAssignment name cur = .ok next) :
    ∃ blanks op, cur.rest = blanks ++ (op ++ next.rest)
      ∧ (∀ c ∈ blanks, isBlank c = true)
      ∧ op ∈ assignmentOperators := by
  obtain ⟨blanks, eq, all⟩ := cur.exists_skipWhile isBlank
  simp only [readAssignment] at h
  split at h
  · next op found =>
    cases h
    have fits : op.isPrefixOf (cur.skipWhile isBlank).rest = true := by
      simpa using List.find?_some found
    obtain ⟨rest, starts⟩ := List.isPrefixOf_iff_prefix.mp fits
    refine ⟨blanks, op, ?_, all, List.mem_of_find?_eq_some found⟩
    rw [eq, ← starts]
    simp [Cursor.advance, ← starts]
  · cases h

theorem text_of_readValue {key : String} {cur next : Cursor} {d : Definition}
    (h : readValue key cur = .ok (d, next)) :
    ∃ value before behind, d = .parameter key value ∧ IsTrivia before
      ∧ IsPatternText value.toList ∧ IsTrivia behind
      ∧ cur.rest = before ++ '"' ::
      (value.toList ++ '"' :: (behind ++ ';' :: next.rest)) := by
  simp only [readValue] at h
  split at h
  · next quote =>
    obtain ⟨before, text, isTrivia⟩ := cur.exists_trivia quote
    cases literal : readLiteral cur.skipTrivia with
    | error e => rw [literal] at h; cases h
    | ok found =>
      rw [literal] at h
      simp only [bind, Except.bind] at h
      obtain ⟨isPattern, rest⟩ := text_of_readLiteral quote literal
      split at h
      · next semicolon =>
        cases h
        obtain ⟨behind, text', isTrivia'⟩ := found.2.exists_trivia semicolon
        refine ⟨_, before, behind, rfl, isTrivia, isPattern, isTrivia', ?_⟩
        rw [text, ← quote, rest, text', Cursor.rest_advance semicolon]
      · cases h
  · cases h

theorem text_of_readRule {known : List String} {start : Place}
    {name : String} {marked : Bool} {cur next : Cursor} {d : Definition}
    (h : readRule known start name marked cur = .ok (d, next)) :
    ∃ as cs, d = .rule name marked as ∧ name ∉ known ∧ as ≠ []
      ∧ IsAlternatives as cs
      ∧ cur.rest = cs ++ ';' :: next.rest := by
  unfold readRule at h
  split at h
  · cases h
  · next new =>
    cases body : readBody name .empty cur with
    | error e => rw [body] at h; cases h
    | ok found =>
      rw [body] at h
      simp only [bind, Except.bind] at h
      split at h
      · cases h
      · next some =>
        cases h
        obtain ⟨cs, eq, alternatives⟩ := isAlternatives_of_readBody .empty body
        exact ⟨_, cs, rfl, by simpa using new, by simpa using some,
          alternatives, eq⟩

/-- A definition that is read has a tag, an operator, and the rest of a
parameter or of a rule. -/
theorem parts_of_readDefinition {known : List String} {cur next : Cursor}
    {d : Definition} (h : readDefinition known cur = .ok (d, next)) :
    ∃ mark atName name behind body,
      readMark ((cur.advance 1).skipWhile isSpace) = (mark, atName)
      ∧ readName atName = .ok (name, behind)
      ∧ readAssignment name behind = .ok body
      ∧ (if mark = .parameter then readValue name body else readRule known
        cur.place name (mark = .start) body)
        = .ok (d, next) := by
  unfold readDefinition at h
  cases marked : readMark ((cur.advance 1).skipWhile isSpace) with
    | mk mark atName => ?_
  rw [marked] at h
  cases name : readName atName with
  | error e => simp only [name, bind, Except.bind] at h; cases h
  | ok found =>
    simp only [name, bind, Except.bind] at h
    cases assignment : readAssignment found.1 found.2 with
    | error e => rw [assignment] at h; cases h
    | ok body =>
      rw [assignment] at h
      exact ⟨mark, atName, _, _, body, rfl, name, assignment, h⟩

/-- The tag of a definition, whose bracket the text is at. -/
theorem isTag_of_readName {cur atName behind : Cursor} {tail : List Char}
    {mark : Mark} {name : String} (here : cur.rest = '<' :: tail)
    (marked : readMark ((cur.advance 1).skipWhile isSpace) = (mark, atName))
    (named : readName atName = .ok (name, behind)) :
    ∃ tag, cur.rest = tag ++ behind.rest ∧ IsTag mark name tag := by
  obtain ⟨spaces, inside, all⟩ := (cur.advance 1).exists_skipWhile isSpace
  obtain ⟨isName, spaces', text, all'⟩ := text_of_readName named
  have mark' := text_of_readMark ((cur.advance 1).skipWhile isSpace)
  rw [marked] at mark'
  rw [Cursor.rest_advance here, mark', text] at inside
  refine ⟨'<' :: (spaces ++ (mark.text ++ (name.toList ++ (spaces' ++ ['>'])))),
    ?_, .intro all isName all'⟩
  rw [here, inside]
  simp

/-- A definition that is read stands at the front of the text, and its rule was
not known. -/
theorem isDefinition_of_readDefinition {known : List String} {cur next : Cursor}
    {d : Definition} {tail : List Char} (here : cur.rest = '<' :: tail)
    (h : readDefinition known cur = .ok (d, next)) :
    (∃ cs, cur.rest = cs ++ next.rest ∧ IsDefinition d cs) ∧
      ∀ name ∈ d.ruleName?, name ∉ known := by
  obtain ⟨mark, atName, name, behind, body, marked, named, assignment, h⟩ :=
    parts_of_readDefinition h
  obtain ⟨tag, tagged, isTag⟩ := isTag_of_readName here marked named
  obtain ⟨blanks, op, assigned, blank, isOperator⟩ :=
    text_of_readAssignment assignment
  rw [tagged, assigned]
  split at h
  · next parameter =>
    subst parameter
    obtain ⟨value, before, behind', rfl, isTrivia, isPattern,
      isTrivia', text⟩ := text_of_readValue h
    refine ⟨⟨_, ?_, .parameter isTag blank isOperator isTrivia
      isPattern isTrivia'⟩, nofun⟩
    rw [text]
    simp
  · next notParameter =>
    obtain ⟨as, cs, rfl, new, some, alternatives, text⟩ := text_of_readRule h
    have same : (if decide (mark = .start) then Mark.start else Mark.none)
        = mark := by
      cases mark with
      | none => rfl
      | start => rfl
      | parameter => exact absurd rfl notParameter
    rw [← same] at isTag
    refine ⟨⟨_, ?_, .rule isTag blank isOperator alternatives some⟩, ?_⟩
    · rw [text]
      simp
    · rintro _ ⟨⟩
      exact new

/-! ## Texts -/

/-- A text that is read whole is one of its definitions in the notation, and
defines no rule that is known, and none twice. -/
theorem isGrammarText_of_readAll {known : List String} {cur : Cursor}
    (none : (readAll known cur).error = none) (distinct : known.Nodup) :
    IsGrammarText (readAll known cur).definitions cur.rest ∧
      ((readAll known cur).definitions.filterMap Definition.ruleName?
        ++ known).Nodup := by
  fun_induction readAll known cur with
  | case1 known cur start done =>
    obtain ⟨cs, eq, isTrivia | ⟨isEnding, -⟩⟩ := cur.exists_skipTrivia
    · rw [show cur.skipTrivia.rest = [] from done, List.append_nil] at eq
      exact ⟨.ending (.trivia (eq ▸ isTrivia)), by simpa using distinct⟩
    · rw [show cur.skipTrivia.rest = [] from done, List.append_nil] at eq
      exact ⟨.ending (eq ▸ isEnding), by simpa using distinct⟩
  | case2 => cases none
  | case3 known cur start tail here d next read shorter after ih =>
    obtain ⟨trivia, eq, isTrivia⟩ := cur.exists_trivia here
    obtain ⟨⟨cs, text, isDefinition⟩, new⟩ :=
      isDefinition_of_readDefinition here read
    have distinct' : (d.ruleName?.toList ++ known).Nodup := by
      cases name : d.ruleName? with
      | none => exact distinct
      | some name' => exact List.nodup_cons.mpr ⟨new name' name, distinct⟩
    obtain ⟨others, distinct''⟩ := ih none distinct'
    refine ⟨?_, nodup_ruleNames_cons.mpr distinct''⟩
    rw [eq, ← here, text]
    exact .definition isTrivia isDefinition others
  | case4 => cases none

/-- A text is read as definitions exactly if it has them in the notation and
none of its rules twice. -/
theorem Reading.ofText_result_eq_ok_iff {text : List Char}
    {ds : List Definition} :
    (Reading.ofText text).result = .ok ds
      ↔ IsGrammarText ds text ∧ (ds.filterMap Definition.ruleName?).Nodup := by
  constructor
  · intro read
    have none : (Reading.ofText text).error = none := by
      unfold Reading.result at read
      split at read
      · assumption
      · cases read
    have same : (Reading.ofText text).definitions = ds := by
      simpa [Reading.result, none] using read
    have found := isGrammarText_of_readAll none List.nodup_nil
    rw [List.append_nil, show (readAll [] (.ofText text)).definitions = ds
      from same] at found
    exact found
  · rintro ⟨isText, distinct⟩
    have read : Reading.ofText text = ⟨ds, none⟩ :=
      isText.readAll_eq (by rwa [List.append_nil]) .start
    rw [read]
    rfl

/-- No grammar is read of a text with an error in it. -/
theorem Grammar.ofText?_eq_error_iff {text : List Char} {e : ReadError} :
    ofText? text = .error e ↔ (Reading.ofText text).error = some e := by
  rw [ofText?, Reading.result]
  cases (Reading.ofText text).error with
  | none => exact iff_of_false nofun nofun
  | some e' =>
    constructor
    · rintro ⟨⟩
      rfl
    · rintro ⟨⟩
      rfl

end Lexigram
