import Lexigram.Proofs.Grammar.Spelling
import Lexigram.Proofs.Grammar.Whereabouts

/-!
Errors of reading point at what is wrong. Of each fault it is told what stands
at the place that is reported for it (`ReadFault.PointsAt`). While definitions
are read, the text in front of the cursor is lexemes, and each group that is
open was opened by a brace at the place that is remembered for it (`Opens`).
-/

namespace Lexigram

open Text

/-! ## What errors point at -/

/-- What a fault says of the text in front of its place and the text that starts
there. -/
def ReadFault.PointsAt (before behind : List Char) : ReadFault → Prop
  | .unterminatedTag | .missingTerminator _ => behind = []
  | .emptyTag => before.getLast? = some '>'
  | .invalidTagCharacter c | .unexpectedCharacter c => behind.head? = some c
  -- a quote between lexemes, and nothing behind it can be the rest of a literal
  | .unterminatedLiteral =>
    ∃ es inside, Lexes es (before ++ behind) behind ∧ behind = '"' :: inside ∧
      ∀ p rest, IsPatternText p → inside ≠ p ++ '"' :: rest
  -- a brace between lexemes, and all behind it is members of its group
  | .unterminatedGroup =>
    ∃ es ts inside ending, Lexes es (before ++ behind) behind ∧
      behind = '\x7b' :: (inside ++ ending) ∧ IsSequence ts inside ∧
      IsEnding ending
  | .missingAssignment _ => ∀ op ∈ assignmentOperators, ¬ op <+: behind
  | .invalidParameter _ => ∀ c ∈ behind.head?, isBlank c = false ∧ c ≠ '#'
  -- the tag of a rule behind definitions, one of which is of the same rule
  | .duplicateRule name =>
    ∃ ds mark tag rest, IsGrammarText ds before ∧ behind = tag ++ rest ∧
      IsTag mark name tag ∧ mark ≠ .parameter ∧
      name ∈ ds.filterMap Definition.ruleName?
  -- the tag of a rule behind definitions, and its alternatives come to nothing
  | .emptyRule name =>
    ∃ ds mark tag blanks op body rest, IsGrammarText ds before ∧
      behind = tag ++ (blanks ++ (op ++ (body ++ ';' :: rest))) ∧
      IsTag mark name tag ∧ mark ≠ .parameter ∧
      (∀ c ∈ blanks, isBlank c = true) ∧ op ∈ assignmentOperators ∧
      IsAlternatives [] body

/-- Whether the place of an error is one in a text that its fault points at. -/
def ReadError.PointsInto (text : List Char) (e : ReadError) : Prop :=
  ∃ before behind, text = before ++ behind ∧ e.place = Place.start.past before ∧
    e.fault.PointsAt before behind

/-- An error at a cursor. -/
theorem Cursor.Stands.pointsInto {text front : List Char}
    {cur : Cursor} (h : cur.Stands text front) {fault : ReadFault}
    (points : fault.PointsAt front cur.rest) :
    ReadError.PointsInto text ⟨cur.place, fault⟩ :=
  ⟨front, cur.rest, h.text_eq, h.place_eq, points⟩

/-! ## The text in front -/

/-- Whether a text is lexemes, whatever stands behind it but an equals sign. -/
def IsLexed (front : List Char) : Prop :=
  ∃ es, ∀ rest, rest.head? ≠ some '=' → Lexes es (front ++ rest) rest

namespace IsLexed

variable {front cs : List Char}

theorem append (h : IsLexed front) {fs : List Lexeme}
    (lexes : ∀ rest, Lexes fs (cs ++ rest) rest) (starts : ∀ rest : List Char,
      rest.head? ≠ some '=' → (cs ++ rest).head? ≠ some '=') :
    IsLexed (front ++ cs) := by
  obtain ⟨es, before⟩ := h
  refine ⟨es ++ fs, fun rest notEquals => ?_⟩
  rw [List.append_assoc]
  exact (before _ (starts rest notEquals)).trans (lexes rest)

theorem append_sequence (h : IsLexed front) {ts : List (Token String)}
    (isSequence : IsSequence ts cs) :
    IsLexed (front ++ cs) := by
  obtain ⟨fs, -, lexes⟩ := isSequence.spells
  exact h.append lexes fun _ => isSequence.head?_ne

end IsLexed

/-- Whether the groups that are open were opened in a text: each by a brace at
the place that is remembered for it, behind lexemes. -/
inductive Opens :
    List (Place × List (Token String)) → List (Token String) → List Char → Prop
  | none {current : List (Token String)} {front : List Char} :
      Opens [] current front
  | group {opened : List (Place × List (Token String))}
      {outer current : List (Token String)} {before inside : List Char} : Opens
      opened outer before → IsLexed before → IsSequence current.reverse inside →
      Opens ((Place.start.past before, outer) :: opened) current
      (before ++ '\x7b' :: inside)

namespace Opens

variable {opened : List (Place × List (Token String))}
  {current outer : List (Token String)} {place : Place} {front cs : List Char}

theorem append (h : Opens opened current front) {ts : List (Token String)}
    (more : IsSequence ts cs) :
    Opens opened (ts.reverse ++ current) (front ++ cs) := by
  cases h with
  | none => exact .none
  | group around lexed inside =>
    rw [List.append_assoc, List.cons_append]
    refine .group around lexed ?_
    rw [List.reverse_append, List.reverse_reverse]
    exact inside.append more

theorem group_inv (h : Opens ((place, outer) :: opened) current front) :
    ∃ before inside, front = before ++ '\x7b' :: inside
      ∧ place = Place.start.past before ∧ Opens opened outer before
      ∧ IsLexed before ∧ IsSequence current.reverse inside := by
  cases h with
  | group around lexed inside => exact ⟨_, _, rfl, rfl, around, lexed, inside⟩

theorem close (h : Opens ((place, outer) :: opened) current front)
    {m : Multiplicity} {suffix : List Char}
    (isSuffix : IsGroupSuffix m suffix) :
    Opens opened (.group m current.reverse :: outer)
      (front ++ '\x7d' :: suffix) := by
  obtain ⟨before, inside, rfl, -, around, -, isSequence⟩ := h.group_inv
  rw [List.append_assoc, List.cons_append]
  exact around.append (isSequence.group isSuffix)

end Opens

/-- Whether a body may be in progress behind a text. -/
structure Body.Behind (front : List Char) (b : Body) : Prop where
  lexed : IsLexed front
  opens : Opens b.opened b.current front

namespace Body.Behind

variable {b : Body} {front cs : List Char}

theorem append (h : b.Behind front) {ts : List (Token String)}
    (more : IsSequence ts cs) :
    Behind (front ++ cs) { b with current := ts.reverse ++ b.current } :=
  ⟨h.lexed.append_sequence more, h.opens.append more⟩

theorem openGroup (h : b.Behind front) :
    (b.openGroup (Place.start.past front)).Behind (front ++ ['\x7b']) :=
  ⟨h.lexed.append (fun _ => .single .opening) (by simp),
    .group h.opens h.lexed (.trivia .nil)⟩

theorem finish (h : b.Behind front) (closed : b.opened = []) :
    b.finish.Behind (front ++ ['|']) := by
  refine ⟨h.lexed.append (fun _ => .single .bar) (by simp), ?_⟩
  rw [show b.finish.opened = [] from closed]
  exact .none

theorem closeGroup (h : b.Behind front) {place : Place}
    {outer : List (Token String)} {opened : List (Place × List (Token String))}
    (isOpen : b.opened = (place, outer) :: opened) {m : Multiplicity}
    {suffix : List Char} (isSuffix : IsGroupSuffix m suffix) :
    Behind (front ++ '\x7d' :: suffix)
      { b with opened, current := .group m b.current.reverse :: outer } := by
  have lexes (rest : List Char) : Lexes (.closing :: m.lexemes)
      ('\x7d' :: suffix ++ rest) rest := by
    show Lexes _ (['\x7d'] ++ (suffix ++ rest)) rest
    exact .cons .closing (isSuffix.lexes rest)
  exact ⟨h.lexed.append lexes (by simp), (isOpen ▸ h.opens).close isSuffix⟩

end Body.Behind

/-! ## Errors in the parts of a definition -/

section Errors

variable {text front : List Char} {cur : Cursor} {e : ReadError}

theorem pointsInto_of_readName (stands : cur.Stands text front)
    (h : readName cur = .error e) :
    e.PointsInto text := by
  have leads :=
    (cur.leads_skipWhile isNameChar).trans (Cursor.leads_skipWhile _ isSpace)
  obtain ⟨front', close⟩ := stands.exists_move leads
  simp only [readName] at h
  split at h
  · next ends =>
    cases h
    exact close.pointsInto ends
  · next tail bracket =>
    split at h
    · cases h
      exact (close.advance bracket).pointsInto List.getLast?_concat
    · cases h
  · next c tail _ other =>
    cases h
    exact close.pointsInto (congrArg List.head? other)

theorem readLiteralFrom_eq_error {start p : Place}
    {escaped : Bool} {read cs : List Char}
    (h : readLiteralFrom start escaped p read cs = .error e) :
    e = ⟨start, .unterminatedLiteral⟩ := by
  induction cs generalizing escaped p read with
  | nil =>
    cases h
    rfl
  | cons c cs ih =>
    rw [readLiteralFrom] at h
    split at h
    · cases h
    · exact ih h

theorem pointsInto_of_readLiteral (stands : cur.Stands text front)
    (lexed : IsLexed front) {inside : List Char}
    (here : cur.rest = '"' :: inside) (h : readLiteral cur = .error e) :
    e.PointsInto text := by
  obtain rfl := readLiteralFrom_eq_error h
  obtain ⟨es, lexes⟩ := lexed
  refine stands.pointsInto ⟨es, inside, lexes _ (by simp [here]), here, ?_⟩
  -- what could end the literal would have been read
  rintro p rest pattern rfl
  have readable : IsPatternText (String.ofList p).toList := by
    rwa [String.toList_ofList]
  obtain ⟨place, read⟩ := readLiteral_of_isPatternText readable cur.place rest
  rw [String.toList_ofList, ← here] at read
  cases read.symm.trans h

theorem pointsInto_of_readAssignment {name : String}
    (stands : cur.Stands text front) (h : readAssignment name cur = .error e) :
    e.PointsInto text := by
  obtain ⟨front', behind⟩ := stands.exists_move (cur.leads_skipWhile isBlank)
  simp only [readAssignment] at h
  split at h
  · cases h
  · next none =>
    cases h
    refine behind.pointsInto fun op mem starts => ?_
    have other := List.find?_eq_none.mp none op mem
    exact other (List.isPrefixOf_iff_prefix.mpr starts)

/-- What stands behind blanks and comments is neither. -/
theorem head?_spanTrivia (inComment : Bool) (cs : List Char) :
    ∀ c ∈ (spanTrivia inComment cs).2.head?, isBlank c = false ∧ c ≠ '#' := by
  induction cs generalizing inComment with
  | nil => exact nofun
  | cons c cs ih =>
    rw [spanTrivia]
    split
    · exact ih _
    · next other =>
      rintro _ ⟨⟩
      have neither : (inComment = false ∧ isBlank c = false) ∧ c ≠ '#' := by
        simpa using other
      exact ⟨neither.1.2, neither.2⟩

theorem pointsInto_of_readValue {key : String} (stands : cur.Stands text front)
    (lexed : IsLexed front) (h : readValue key cur = .error e) :
    e.PointsInto text := by
  simp only [readValue] at h
  split at h
  · next inside quote =>
    obtain ⟨trivia, -, isTrivia, atQuote⟩ := stands.skipTrivia quote
    cases literal : readLiteral cur.skipTrivia with
    | error e' =>
      rw [literal] at h
      cases h
      exact pointsInto_of_readLiteral atQuote
        (lexed.append_sequence (.trivia isTrivia)) quote literal
    | ok found =>
      obtain ⟨front', behind⟩ := atQuote.exists_move
        ((leads_readLiteral literal).trans found.2.leads_skipTrivia)
      rw [literal] at h
      simp only [bind, Except.bind] at h
      split at h
      · cases h
      · cases h
        exact behind.pointsInto (head?_spanTrivia false _)
  · cases h
    obtain ⟨front', atValue⟩ := stands.exists_move cur.leads_skipTrivia
    exact atValue.pointsInto (head?_spanTrivia false _)

/-! ## Errors in alternatives -/

/-- A step keeps the text in front lexemes, and the places of the groups that
are open. -/
theorem StepOutcome.behind {rule : String} {b b' : Body} {next : Cursor}
    (h : StepOutcome rule b cur (.ok (.more b' next)))
    (stands : cur.Stands text front) (behind : b.Behind front) :
    ∃ front', next.Stands text front' ∧ b'.Behind front' := by
  have leads : cur.Leads next := h.leads
  -- it is enough to tell the text that the step has taken
  have moved {cs : List Char} (taken : cur.rest = cs ++ next.rest)
      (behind' : b'.Behind (front ++ cs)) :
      ∃ front', next.Stands text front' ∧ b'.Behind front' :=
    ⟨front ++ cs, stands.move leads taken, behind'⟩
  cases h with
  | reference here name =>
    obtain ⟨cs, taken, isSequence⟩ := isSequence_of_readName here name
    exact moved taken (behind.append isSequence)
  | literal here literal =>
    obtain ⟨cs, taken, isSequence⟩ := isSequence_of_readLiteral here literal
    exact moved taken (behind.append isSequence)
  | openGroup here =>
    refine ⟨_, stands.advance here, ?_⟩
    rw [stands.place_eq]
    exact behind.openGroup
  | bar here closed => exact ⟨_, stands.advance here, behind.finish closed⟩
  | closeGroup here isOpen =>
    obtain ⟨suffix, blanks, taken, isSuffix, all⟩ := text_of_readSuffix here
    have ended := (behind.closeGroup isOpen isSuffix).append
      (.trivia (isTrivia_of_isBlank all))
    have taken' : cur.rest = '\x7d' ::
        suffix ++ blanks ++ (readSuffix cur).2.rest := by
      rw [here, taken]
      simp
    exact moved taken' (by simpa using ended)

theorem behind_of_readElement {rule : String} {b b' : Body}
    {next : Cursor} (stands : cur.Stands text front) (behind : b.Behind front)
    (h : readElement rule b cur = .ok (.more b' next)) :
    ∃ front', next.Stands text front' ∧ b'.Behind front' := by
  have outcome := stepOutcome_readElement rule b cur
  rw [h] at outcome
  obtain ⟨c, tail, here⟩ := outcome.exists_cons
  obtain ⟨trivia, -, isTrivia, atElement⟩ := stands.skipTrivia here
  exact outcome.behind atElement (behind.append (.trivia isTrivia))

theorem pointsInto_of_readElement {rule : String}
    {b : Body} (stands : cur.Stands text front) (behind : b.Behind front)
    (h : readElement rule b cur = .error e) : e.PointsInto text := by
  have outcome := stepOutcome_readElement rule b cur
  rw [h] at outcome
  cases outcome with
  | missingTerminator done =>
    obtain ⟨front', atEnd⟩ := stands.exists_move cur.leads_skipTrivia
    exact atEnd.pointsInto done
  | unterminatedGroup done isOpen =>
    obtain ⟨ending, between, isTrivia⟩ := cur.exists_skipTrivia
    obtain ⟨before, inside, rfl, rfl, -, ⟨es, lexes⟩, isSequence⟩ :=
      (isOpen ▸ behind.opens).group_inv
    have isEnding : IsEnding ending := isTrivia.elim .trivia And.left
    refine ⟨before, '\x7b' :: (inside ++ ending), ?_, rfl, es, _, inside,
      ending, lexes _ (by simp), rfl, isSequence, isEnding⟩
    rw [stands.text_eq, between, done]
    simp
  | badName here name =>
    obtain ⟨trivia, -, -, atElement⟩ := stands.skipTrivia here
    obtain ⟨front', atName⟩ :=
      (atElement.advance here).exists_move (Cursor.leads_skipWhile _ isSpace)
    exact pointsInto_of_readName atName name
  | badLiteral here literal =>
    obtain ⟨trivia, -, isTrivia, atElement⟩ := stands.skipTrivia here
    exact pointsInto_of_readLiteral atElement
      (behind.lexed.append_sequence (.trivia isTrivia)) here literal
  | unexpected here =>
    obtain ⟨trivia, -, -, atElement⟩ := stands.skipTrivia here
    exact atElement.pointsInto (congrArg List.head? here)

theorem pointsInto_of_readBody {rule : String} {b : Body}
    (stands : cur.Stands text front) (behind : b.Behind front)
    (h : readBody rule b cur = .error e) : e.PointsInto text := by
  fun_induction readBody rule b cur generalizing front with
  | case1 b cur e' step =>
    cases h
    exact pointsInto_of_readElement stands behind step
  | case2 => cases h
  | case3 b cur b' next step shorter ih =>
    obtain ⟨front', stands', behind'⟩ :=
      behind_of_readElement stands behind step
    exact ih stands' behind' h

/-! ## Errors in definitions -/

theorem SpellsGrammar.append {ds ds' : List Definition} {es es' : List Lexeme}
    (h : SpellsGrammar ds es) (h' : SpellsGrammar ds' es') :
    SpellsGrammar (ds ++ ds') (es ++ es') := by
  induction h with
  | nil => exact h'
  | comment _ ih => exact .comment ih
  | definition isDefinition _ ih =>
    rw [List.append_assoc]
    exact .definition isDefinition ih

/-- Whether a text is that of definitions, whatever stands behind it. -/
def IsTold (ds : List Definition) (front : List Char) : Prop :=
  ∃ es, SpellsGrammar ds es ∧ ∀ rest, Lexes es (front ++ rest) rest

namespace IsTold

variable {ds : List Definition} {cs : List Char}

theorem nil : IsTold [] [] :=
  ⟨[], .nil, fun _ => .nil⟩

theorem append {ds' : List Definition} {es : List Lexeme} (h : IsTold ds front)
    (spells : SpellsGrammar ds' es)
    (lexes : ∀ rest, Lexes es (cs ++ rest) rest) :
    IsTold (ds ++ ds') (front ++ cs) := by
  obtain ⟨es', spells', lexes'⟩ := h
  refine ⟨es' ++ es, spells'.append spells, fun rest => ?_⟩
  rw [List.append_assoc]
  exact (lexes' _).trans (lexes rest)

theorem append_trivia (h : IsTold ds front) (isTrivia : IsTrivia cs) :
    IsTold ds (front ++ cs) := by
  obtain ⟨es, spells, lexes⟩ := isTrivia.spells
  have more := h.append (spells.spellsGrammar rfl .nil) (by simpa using lexes)
  rwa [List.append_nil] at more

theorem append_definition (h : IsTold ds front) {d : Definition}
    (isDefinition : IsDefinition d cs) :
    IsTold (ds ++ [d]) (front ++ cs) := by
  obtain ⟨es, spells, lexes⟩ := isDefinition.spells
  exact h.append (.definition spells .nil) (by simpa using lexes)

theorem isGrammarText (h : IsTold ds front) : IsGrammarText ds front := by
  obtain ⟨es, spells, lexes⟩ := h
  have whole := lexes []
  rw [List.append_nil] at whole
  exact spells.isGrammarText whole

/-- The head of a definition may stand behind definitions. -/
theorem isLexed_append (h : IsTold ds front) {mark : Mark}
    {name : String} {tag blanks op : List Char} (isTag : IsTag mark name tag)
    (all : ∀ c ∈ blanks, isBlank c = true) (mem : op ∈ assignmentOperators) :
    IsLexed (front ++ (tag ++ (blanks ++ op))) := by
  obtain ⟨es, -, lexes⟩ := h
  refine ⟨es ++ [.tag mark name, .operator], fun rest notEquals => ?_⟩
  have operator : Lexes [.operator] (op ++ rest) rest :=
    .single (.operator mem notEquals)
  have head := Lexes.cons (.tag isTag) (operator.blanks_append all)
  simpa using (lexes _).trans head

end IsTold

variable {known : List String} {ds : List Definition}

/-- `start` is where the tag of the rule stands, behind the definitions. -/
theorem pointsInto_of_readRule {start : Cursor}
    {mark : Mark} {name : String} {marked : Bool} {tag blanks op : List Char}
    (atTag : start.Stands text front) (told : IsTold ds front)
    (defined : ∀ name ∈ known, name ∈ ds.filterMap Definition.ruleName?)
    (head : start.rest = tag ++ (blanks ++ (op ++ cur.rest)))
    (isTag : IsTag mark name tag) (isRule : mark ≠ .parameter)
    (all : ∀ c ∈ blanks, isBlank c = true) (mem : op ∈ assignmentOperators)
    (stands : cur.Stands text (front ++ (tag ++ (blanks ++ op))))
    (h : readRule known start.place name marked cur = .error e) :
    e.PointsInto text := by
  unfold readRule at h
  split at h
  · next again =>
    cases h
    have twice : name ∈ ds.filterMap Definition.ruleName? :=
      defined name (by simpa using again)
    exact atTag.pointsInto ⟨ds, mark, tag, _, told.isGrammarText, head, isTag,
      isRule, twice⟩
  · cases body : readBody name .empty cur with
    | error e' =>
      rw [body] at h
      cases h
      exact pointsInto_of_readBody stands
        ⟨told.isLexed_append isTag all mem, .none⟩ body
    | ok found =>
      obtain ⟨cs, between, alternatives⟩ :=
        isAlternatives_of_readBody .empty body
      rw [body] at h
      simp only [bind, Except.bind] at h
      split at h
      · next empty =>
        cases h
        rw [List.isEmpty_iff.mp empty, List.nil_append] at alternatives
        rw [between] at head
        exact atTag.pointsInto ⟨ds, mark, tag, blanks, op, cs, _,
          told.isGrammarText, head, isTag, isRule, all, mem, alternatives⟩
      · cases h

theorem pointsInto_of_readDefinition {tail : List Char}
    (stands : cur.Stands text front) (told : IsTold ds front)
    (defined : ∀ name ∈ known, name ∈ ds.filterMap Definition.ruleName?)
    (here : cur.rest = '<' :: tail) (h : readDefinition known cur = .error e) :
    e.PointsInto text := by
  have toName :=
    ((cur.leads_advance 1).trans (Cursor.leads_skipWhile _ isSpace)).trans
      (leads_readMark ((cur.advance 1).skipWhile isSpace))
  unfold readDefinition at h
  cases marked : readMark ((cur.advance 1).skipWhile isSpace) with
    | mk mark atName => ?_
  rw [marked] at h toName
  cases name : readName atName with
  | error e' =>
    simp only [name, bind, Except.bind] at h
    cases h
    obtain ⟨front', stands'⟩ := stands.exists_move toName
    exact pointsInto_of_readName stands' name
  | ok found =>
    obtain ⟨name', behind⟩ := found
    obtain ⟨tag, tagged, isTag⟩ := isTag_of_readName here marked name
    have atOperator := stands.move (toName.trans (leads_readName name)) tagged
    simp only [name, bind, Except.bind] at h
    cases assignment : readAssignment name' behind with
    | error e' =>
      rw [assignment] at h
      cases h
      exact pointsInto_of_readAssignment atOperator assignment
    | ok body =>
      obtain ⟨blanks, op, assigned, all, mem⟩ :=
        text_of_readAssignment assignment
      have atBody : body.Stands text (front ++ (tag ++ (blanks ++ op))) := by
        have between : behind.rest = (blanks ++ op) ++ body.rest := by
          rw [assigned, List.append_assoc]
        have moved := atOperator.move (leads_readAssignment assignment) between
        rwa [List.append_assoc] at moved
      rw [assignment] at h
      simp only at h
      split at h
      · exact pointsInto_of_readValue atBody
          (told.isLexed_append isTag all mem) h
      · next isRule =>
        have head : cur.rest = tag ++ (blanks ++ (op ++ body.rest)) := by
          rw [tagged, assigned]
        exact pointsInto_of_readRule stands told defined head isTag isRule all
          mem atBody h

end Errors

theorem pointsInto_of_readAll {text : List Char} (known : List String)
    (cur : Cursor) :
    ∀ e ∈ (readAll known cur).error,
      ∀ {front : List Char} {ds : List Definition}, cur.Stands text front →
      IsTold ds front →
      (∀ name ∈ known, name ∈ ds.filterMap Definition.ruleName?) →
      e.PointsInto text := by
  fun_induction readAll known cur with
  | case1 => rintro _ ⟨⟩
  | case2 known cur start tail here e read =>
    rintro _ ⟨⟩ front ds stands told defined
    obtain ⟨trivia, -, isTrivia, atDefinition⟩ := stands.skipTrivia here
    exact pointsInto_of_readDefinition atDefinition
      (told.append_trivia isTrivia) defined here read
  | case3 known cur start tail here d next read shorter after ih =>
    intro e failed front ds stands told defined
    obtain ⟨trivia, -, isTrivia, atDefinition⟩ := stands.skipTrivia here
    obtain ⟨⟨cs, taken, isDefinition⟩, -⟩ :=
      isDefinition_of_readDefinition here read
    refine ih e failed (atDefinition.move (leads_readDefinition read) taken)
      ((told.append_trivia isTrivia).append_definition isDefinition) ?_
    intro name mem
    rw [List.filterMap_append]
    rcases List.mem_append.mp mem with own | mem
    · exact List.mem_append_right _ (List.mem_filterMap.mpr
        ⟨d, List.mem_singleton_self d, Option.mem_toList.mp own⟩)
    · exact List.mem_append_left _ (defined name mem)
  | case4 known cur start c tail other here =>
    rintro _ ⟨⟩ front ds stands told defined
    obtain ⟨front', stands'⟩ := stands.exists_move cur.leads_skipTrivia
    exact stands'.pointsInto (congrArg List.head? here)

namespace Grammar

/-- **Errors point at what they tell of.** The place of an error in a text is
that of an index, of a character or of the end, and what the fault says is so
there. In a text of less than `UInt32.size - 1` characters all lines and columns
fit into 32 bits. -/
theorem error_pointsAt {text : List Char} {e : ReadError}
    (h : ofText? text = .error e) :
    (∃ i ≤ text.length, e.place = Place.ofIndex text i ∧
      e.fault.PointsAt (text.take i) (text.drop i)) ∧
    (text.length < UInt32.size - 1 →
      ∀ i ≤ text.length, (Place.ofIndex text i).line < UInt32.size ∧
      (Place.ofIndex text i).column < UInt32.size) := by
  constructor
  · obtain ⟨before, behind, rfl, place, points⟩ :=
      pointsInto_of_readAll [] _ e (ofText?_eq_error_iff.mp h)
        (.start text) .nil (List.forall_mem_nil _)
    refine ⟨before.length, by simp, ?_, ?_⟩
    · rw [place, Place.past_start_eq_ofIndex]
    · rwa [List.take_left, List.drop_left]
  · intro short i le
    have bound := Place.line_add_column_ofIndex_le le
    have first : 1 ≤ (Place.ofIndex text i).line ∧
        1 ≤ (Place.ofIndex text i).column :=
      ⟨Nat.le_add_left 1 _, Nat.le_add_left 1 _⟩
    omega

/-- `<a> := {"x" {<b> } # c` -/
def openGroups : List Char :=
  "<a> := \x7b\"x\" \x7b<b> \x7d # c".toList

/-- The inner group is closed: it is the outer one that the error points at. -/
theorem openGroups_pointsAt :
    ofText? openGroups = .error ⟨⟨1, 8⟩, .unterminatedGroup⟩ ∧
      (∃ i ≤ openGroups.length, (⟨1, 8⟩ : Place) = Place.ofIndex openGroups i ∧
      ReadFault.PointsAt (openGroups.take i)
        (openGroups.drop i) .unterminatedGroup) ∧
    ∀ i ≤ openGroups.length,
      (Place.ofIndex openGroups i).line < UInt32.size ∧
      (Place.ofIndex openGroups i).column < UInt32.size := by
  have refused : ofText? openGroups = .error ⟨⟨1, 8⟩, .unterminatedGroup⟩ := by
    rw [ofText?_eq_error_iff]
    decide +kernel
  obtain ⟨points, fits⟩ := error_pointsAt refused
  exact ⟨refused, points, fits (by decide)⟩

end Grammar

end Lexigram
