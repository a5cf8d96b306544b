import Lexigram.Proofs.Grammar.Lexemes

/-!
The notation for grammars told again for lexemes, where a comment is a lexeme of
its own. A text is one of definitions exactly if its lexemes spell them
(`isGrammarText_iff_spells`).
-/

namespace Lexigram

open Text

/-! ## What lexemes spell -/

/-- The lexemes that a multiplicity has behind the bracket of its group. -/
def Multiplicity.lexemes : Multiplicity → List Lexeme
  | .one => []
  | m => [.suffix m]

/-- Tokens in sequence, with comments before, between and behind them. -/
inductive SpellsSequence : List (Token String) → List Lexeme → Prop
  | nil : SpellsSequence [] []
  | comment : SpellsSequence [] [.comment]
  | reference {name : String} :
      SpellsSequence [.reference name] [.tag .none name]
  | literal {p : String} : SpellsSequence [.literal p] [.literal p]
  | group {ts : List (Token String)} {es : List Lexeme} (m : Multiplicity) :
      SpellsSequence ts es →
        SpellsSequence [.group m ts] (.opening :: (es ++ .closing :: m.lexemes))
  | append {ts us : List (Token String)} {es fs : List Lexeme} :
      SpellsSequence ts es → SpellsSequence us fs →
        SpellsSequence (ts ++ us) (es ++ fs)

/-- Alternatives, with a bar between two sequences. -/
inductive SpellsAlternatives : List (Alternative String) → List Lexeme → Prop
  | sequence {ts : List (Token String)} {es : List Lexeme} :
      SpellsSequence ts es → SpellsAlternatives (kept ts) es
  | bar {as : List (Alternative String)} {ts : List (Token String)}
      {es fs : List Lexeme} : SpellsAlternatives as es → SpellsSequence ts fs →
      SpellsAlternatives (as ++ kept ts) (es ++ .bar :: fs)

/-- A definition, up to and including the semicolon. -/
inductive SpellsDefinition : Definition → List Lexeme → Prop
  | rule {name : String} {start : Bool} {as : List (Alternative String)}
      {es : List Lexeme} :
      SpellsAlternatives as es → as ≠ [] →
      SpellsDefinition (.rule name start as)
        (.tag (if start then .start else .none) name :: .operator
          :: (es ++ [.semicolon]))
  | parameter {key value : String} {es : List Lexeme} :
      SpellsSequence [.literal value] es →
        SpellsDefinition (.parameter key value)
        (.tag .parameter key :: .operator :: (es ++ [.semicolon]))

/-- Definitions one behind the other, with comments before, between and behind
them. -/
inductive SpellsGrammar : List Definition → List Lexeme → Prop
  | nil : SpellsGrammar [] []
  | comment {ds : List Definition} {es : List Lexeme} :
      SpellsGrammar ds es → SpellsGrammar ds (.comment :: es)
  | definition {d : Definition} {ds : List Definition} {es fs : List Lexeme} :
      SpellsDefinition d es →
        SpellsGrammar ds fs → SpellsGrammar (d :: ds) (es ++ fs)

/-! ## Texts have lexemes that spell what they are -/

theorem IsTrivia.spells {cs : List Char} (h : IsTrivia cs) :
    ∃ es, SpellsSequence [] es ∧ ∀ rest, Lexes es (cs ++ rest) rest := by
  induction h with
  | nil => exact ⟨[], .nil, fun _ => .nil⟩
  | blank blank _ ih =>
    obtain ⟨es, spells, lexes⟩ := ih
    exact ⟨es, spells, fun rest => .blank blank (lexes rest)⟩
  | @comment line cs inLine _ ih =>
    obtain ⟨es, spells, lexes⟩ := ih
    refine ⟨.comment :: es, .append .comment spells, fun rest => ?_⟩
    have first : Lexeme.IsText .comment ('#' :: (line ++ ['\n']))
      (cs ++ rest) := .comment inLine
    simpa using Lexes.cons first (lexes rest)

theorem IsGroupSuffix.lexes {m : Multiplicity} {suffix : List Char}
    (h : IsGroupSuffix m suffix) (rest : List Char) :
    Lexes m.lexemes (suffix ++ rest) rest := by
  cases h with
  | none => exact .nil
  | char all isSuffix =>
    have some : m.lexemes = [.suffix m] := by
      cases m with
      | one =>
        rw [Multiplicity.ofSuffix?_eq_some_iff] at isSuffix; cases isSuffix
      | optional => rfl
      | zeroOrMore => rfl
      | oneOrMore => rfl
    rw [some, List.append_assoc]
    exact (Lexes.single (.suffix isSuffix)).blanks_append all

theorem IsSequence.spells {ts : List (Token String)} {cs : List Char}
    (h : IsSequence ts cs) :
    ∃ es, SpellsSequence ts es ∧ ∀ rest, Lexes es (cs ++ rest) rest := by
  induction h with
  | trivia trivia => exact trivia.spells
  | reference tag => exact ⟨_, .reference, fun _ => .single (.tag tag)⟩
  | literal pattern => exact ⟨_, .literal, fun _ => .single (.literal pattern)⟩
  | @group ts m inside suffix _ isSuffix ih =>
    obtain ⟨es, spells, lexes⟩ := ih
    refine ⟨_, .group m spells, fun rest => ?_⟩
    have closing : Lexes (.closing :: m.lexemes)
        ('\x7d' :: (suffix ++ rest)) rest :=
      .cons .closing (isSuffix.lexes rest)
    have opening : Lexeme.IsText .opening ['\x7b']
      (inside ++ '\x7d' :: (suffix ++ rest)) := .opening
    simpa using Lexes.cons opening ((lexes _).trans closing)
  | append _ _ first second =>
    obtain ⟨es, spells, lexes⟩ := first
    obtain ⟨fs, spells', lexes'⟩ := second
    refine ⟨es ++ fs, .append spells spells', fun rest => ?_⟩
    rw [List.append_assoc]
    exact (lexes _).trans (lexes' rest)

theorem IsAlternatives.spells {as : List (Alternative String)} {cs : List Char}
    (h : IsAlternatives as cs) :
    ∃ es, SpellsAlternatives as es ∧ ∀ rest, Lexes es (cs ++ rest) rest := by
  induction h with
  | sequence first =>
    obtain ⟨es, spells, lexes⟩ := first.spells
    exact ⟨es, .sequence spells, lexes⟩
  | bar _ last ih =>
    obtain ⟨es, spells, lexes⟩ := ih
    obtain ⟨fs, spells', lexes'⟩ := last.spells
    refine ⟨_, .bar spells spells', fun rest => ?_⟩
    rw [List.append_assoc, List.cons_append]
    exact (lexes _).trans (.cons .bar (lexes' rest))

/-- The lexemes of a definition whose body has been told. -/
theorem lexes_definition {mark : Mark}
    {name : String} {tag blanks op body : List Char}
    {es : List Lexeme} (isTag : IsTag mark name tag)
    (all : ∀ c ∈ blanks, isBlank c = true) (mem : op ∈ assignmentOperators)
    (notEquals : ∀ rest, (body ++ ';' :: rest).head? ≠ some '=')
    (lexes : ∀ rest, Lexes es (body ++ rest) rest) (rest : List Char) :
    Lexes (.tag mark name :: .operator :: (es ++ [.semicolon]))
      (tag ++ (blanks ++ (op ++ (body ++ [';']))) ++ rest) rest := by
  have body' : Lexes (es ++ [.semicolon]) (body ++ ';' :: rest) rest :=
    (lexes _).trans (.single .semicolon)
  have operator : Lexes (.operator :: (es ++ [.semicolon]))
      (op ++ (body ++ ';' :: rest)) rest :=
    .cons (.operator mem (notEquals rest)) body'
  simpa using Lexes.cons (.tag isTag) (operator.blanks_append all)

theorem IsDefinition.spells {d : Definition} {cs : List Char}
    (h : IsDefinition d cs) :
    ∃ es, SpellsDefinition d es ∧ ∀ rest, Lexes es (cs ++ rest) rest := by
  cases h with
  | rule isTag all mem alternatives some =>
    obtain ⟨es, spells, lexes⟩ := alternatives.spells
    exact ⟨_, .rule spells some,
      lexes_definition isTag all mem
      (fun rest => alternatives.head?_ne (by simp)) lexes⟩
  | @parameter key value tag blanks op before behind isTag all mem trivia
      pattern trivia' =>
    have sequence : IsSequence [.literal value]
        (before ++ (('"' :: (value.toList ++ ['"'])) ++ behind)) :=
      .append (.trivia trivia) (.append (.literal pattern) (.trivia trivia'))
    obtain ⟨es, spells, lexes⟩ := sequence.spells
    refine ⟨_, .parameter spells, fun rest => ?_⟩
    have whole := lexes_definition isTag all mem
      (fun rest => sequence.head?_ne (by simp)) lexes rest
    simpa using whole

theorem SpellsSequence.spellsGrammar {es fs : List Lexeme}
    {ts : List (Token String)} {ds : List Definition} (h : SpellsSequence ts es)
    (none : ts = []) (others : SpellsGrammar ds fs) :
    SpellsGrammar ds (es ++ fs) := by
  induction h generalizing fs with
  | nil => exact others
  | comment => exact .comment others
  | reference => cases none
  | literal => cases none
  | group => cases none
  | append _ _ first second =>
    obtain ⟨none, none'⟩ := List.append_eq_nil_iff.mp none
    rw [List.append_assoc]
    exact first none (second none' others)

theorem IsGrammarText.spells {ds : List Definition} {text : List Char}
    (h : IsGrammarText ds text) :
    ∃ es, SpellsGrammar ds es ∧ Lexes es text [] := by
  induction h with
  | ending ending =>
    cases ending with
    | @trivia cs trivia =>
      obtain ⟨es, spells, lexes⟩ := trivia.spells
      refine ⟨es, ?_, by simpa using lexes []⟩
      simpa using spells.spellsGrammar rfl .nil
    | @comment cs line trivia inLine =>
      obtain ⟨es, spells, lexes⟩ := trivia.spells
      have last : Lexes [.comment] ('#' :: line ++ []) [] :=
        .single (.lastComment inLine)
      rw [List.append_nil] at last
      exact ⟨_, spells.spellsGrammar rfl (.comment .nil), (lexes _).trans last⟩
  | @definition d ds trivia cs rest isTrivia isDefinition _ ih =>
    obtain ⟨es, spells, lexes⟩ := isTrivia.spells
    obtain ⟨fs, spells', lexes'⟩ := isDefinition.spells
    obtain ⟨gs, others, lexes''⟩ := ih
    exact ⟨_, spells.spellsGrammar rfl (.definition spells' others),
      (lexes _).trans ((lexes' _).trans lexes'')⟩

/-! ## Texts of lexemes are what their lexemes spell -/

theorem Lexes.isTrivia {text rest : List Char} (h : Lexes [] text rest) :
    ∃ trivia, text = trivia ++ rest ∧ IsTrivia trivia := by
  obtain ⟨blanks, eq, all⟩ := h.nil_inv
  exact ⟨blanks, eq, isTrivia_of_isBlank all⟩

theorem Lexes.ne_nil {es : List Lexeme} {text rest : List Char}
    (h : Lexes es text rest) (some : rest ≠ []) :
    text ≠ [] := by
  obtain ⟨front, rfl⟩ := h.exists_append
  simp [some]

/-- One lexeme, with the blanks around it. -/
theorem Lexes.single_inv {e : Lexeme} {text rest : List Char}
    (h : Lexes [e] text rest) :
    ∃ before cs behind, text = before ++ (cs ++ (behind ++ rest))
      ∧ IsTrivia before ∧ IsTrivia behind
      ∧ e.IsText cs (behind ++ rest) := by
  obtain ⟨before, cs, mid, rfl, all, isText, others⟩ := h.cons_inv
  obtain ⟨behind, rfl, isTrivia⟩ := others.isTrivia
  exact ⟨before, cs, behind, rfl, isTrivia_of_isBlank all, isTrivia, isText⟩

theorem IsSequence.around {ts : List (Token String)}
    {before cs behind : List Char} (h : IsSequence ts cs)
    (isTrivia : IsTrivia before) (isTrivia' : IsTrivia behind) :
    IsSequence ts (before ++ (cs ++ behind)) := by
  have whole :=
    (IsSequence.trivia isTrivia).append (h.append (.trivia isTrivia'))
  simpa using whole

theorem Lexes.isGroupSuffix {m : Multiplicity} {text rest : List Char}
    (h : Lexes m.lexemes text rest) :
    ∃ suffix behind, text = suffix ++ (behind ++ rest) ∧
      IsGroupSuffix m suffix ∧ IsTrivia behind := by
  have some (isSuffix : Lexes [.suffix m] text rest) :
      ∃ suffix behind, text = suffix ++ (behind ++ rest) ∧
        IsGroupSuffix m suffix ∧ IsTrivia behind := by
    obtain ⟨blanks, cs, mid, rfl, all, isText, others⟩ := isSuffix.cons_inv
    obtain ⟨behind, rfl, isTrivia⟩ := others.isTrivia
    cases isText with
    | @suffix _ c _ multiplicity =>
      exact ⟨blanks ++ [c], behind, by simp, .char all multiplicity, isTrivia⟩
  cases m with
  | one =>
    obtain ⟨behind, rfl, isTrivia⟩ := Lexes.isTrivia h
    exact ⟨[], behind, rfl, .none, isTrivia⟩
  | optional => exact some h
  | zeroOrMore => exact some h
  | oneOrMore => exact some h

/-- Something has to stand behind, so that a comment ends with its line. -/
theorem SpellsSequence.isSequence {ts : List (Token String)}
    {es : List Lexeme} (h : SpellsSequence ts es) {text rest : List Char}
    (lexes : Lexes es text rest) (some : rest ≠ []) :
    ∃ cs, text = cs ++ rest ∧ IsSequence ts cs := by
  induction h generalizing text rest with
  | nil =>
    obtain ⟨trivia, rfl, isTrivia⟩ := lexes.isTrivia
    exact ⟨trivia, rfl, .trivia isTrivia⟩
  | comment =>
    obtain ⟨before, cs, behind, rfl, isTrivia, isTrivia', isText⟩ :=
      lexes.single_inv
    generalize whole : behind ++ rest = mid at isText
    cases isText with
    | @comment line _ inLine =>
      have comment : IsSequence [] ('#' :: (line ++ ['\n'])) :=
        .trivia (.comment inLine .nil)
      exact ⟨_, by simp [← whole], comment.around isTrivia isTrivia'⟩
    | lastComment => simp [some] at whole
  | reference =>
    obtain ⟨before, cs, behind, rfl, isTrivia, isTrivia', isText⟩ :=
      lexes.single_inv
    cases isText with
    | tag tag =>
      exact ⟨_, by simp, (IsSequence.reference tag).around isTrivia isTrivia'⟩
  | literal =>
    obtain ⟨before, cs, behind, rfl, isTrivia, isTrivia', isText⟩ :=
      lexes.single_inv
    cases isText with
    | literal pattern =>
      exact ⟨_, by simp, (IsSequence.literal pattern).around isTrivia isTrivia'⟩
  | @group ts es m _ ih =>
    obtain ⟨before, cs, mid, rfl, all, ⟨⟩, inner⟩ := lexes.cons_inv
    obtain ⟨close, inside, outside⟩ := inner.append_inv
    obtain ⟨before', cs', behind', rfl, all', ⟨⟩, suffixes⟩ := outside.cons_inv
    obtain ⟨suffix, behind, rfl, isSuffix, isTrivia⟩ := suffixes.isGroupSuffix
    obtain ⟨ds, rfl, isSequence⟩ := ih inside (by simp)
    have members := isSequence.append (.trivia (isTrivia_of_isBlank all'))
    rw [List.append_nil] at members
    exact ⟨_, by simp, (members.group isSuffix).around
      (isTrivia_of_isBlank all) isTrivia⟩
  | append _ _ first second =>
    obtain ⟨mid, before, behind⟩ := lexes.append_inv
    obtain ⟨cs, rfl, isSequence⟩ := first before (behind.ne_nil some)
    obtain ⟨ds, rfl, isSequence'⟩ := second behind some
    exact ⟨cs ++ ds, by simp, isSequence.append isSequence'⟩

theorem SpellsAlternatives.isAlternatives {as : List (Alternative String)}
    {es : List Lexeme} (h : SpellsAlternatives as es) {text rest : List Char}
    (lexes : Lexes es text rest) (some : rest ≠ []) :
    ∃ cs, text = cs ++ rest ∧ IsAlternatives as cs := by
  induction h generalizing text rest with
  | sequence first =>
    obtain ⟨cs, rfl, isSequence⟩ := first.isSequence lexes some
    exact ⟨cs, rfl, .sequence isSequence⟩
  | bar _ last ih =>
    obtain ⟨mid, before, behind⟩ := lexes.append_inv
    obtain ⟨blanks, bar, others, rfl, all, ⟨⟩, lexes'⟩ := behind.cons_inv
    obtain ⟨ds, rfl, isSequence⟩ := last.isSequence lexes' some
    obtain ⟨cs, rfl, isAlternatives⟩ := ih before (by simp)
    exact ⟨_, by simp,
      (isAlternatives.append_trivia (isTrivia_of_isBlank all)).bar isSequence⟩

theorem IsSequence.isTrivia {ts : List (Token String)} {cs : List Char}
    (h : IsSequence ts cs) (none : ts = []) :
    IsTrivia cs := by
  induction h with
  | trivia trivia => exact trivia
  | reference => cases none
  | literal => cases none
  | group => cases none
  | append _ _ first second =>
    obtain ⟨none, none'⟩ := List.append_eq_nil_iff.mp none
    exact (first none).append (second none')

/-- The text of a sequence that is one literal. -/
theorem IsSequence.literal_inv {ts : List (Token String)} {cs : List Char}
    (h : IsSequence ts cs) {p : String} (one : ts = [.literal p]) :
    ∃ before behind, cs = before ++ '"' :: (p.toList ++ '"' :: behind)
      ∧ IsTrivia before ∧ IsPatternText p.toList
      ∧ IsTrivia behind := by
  induction h with
  | trivia => cases one
  | reference => cases one
  | literal pattern =>
    cases one
    exact ⟨[], [], rfl, .nil, pattern, .nil⟩
  | group => cases one
  | @append _ _ cs ds first second ihFirst ihSecond =>
    rcases List.append_eq_singleton_iff.mp one with ⟨none, one⟩ | ⟨one, none⟩
    · obtain ⟨before, behind, rfl, isTrivia, pattern, isTrivia'⟩ := ihSecond one
      exact ⟨cs ++ before, behind, by simp,
        (first.isTrivia none).append isTrivia, pattern, isTrivia'⟩
    · obtain ⟨before, behind, rfl, isTrivia, pattern, isTrivia'⟩ := ihFirst one
      exact ⟨before, behind ++ ds, by simp, isTrivia, pattern,
        isTrivia'.append (second.isTrivia none)⟩

/-- The parts of a definition, with the blanks around them. -/
theorem Lexes.definition_inv {mark : Mark}
    {name : String} {es : List Lexeme} {text rest : List Char} (h : Lexes
      (.tag mark name :: .operator :: (es ++ [.semicolon])) text rest) :
    ∃ before tag blanks op mid closing behind,
      text = before ++ (tag ++ (blanks ++ (op ++ mid))) ∧ IsTrivia before
      ∧ IsTag mark name tag ∧ (∀ c ∈ blanks, isBlank c = true)
      ∧ op ∈ assignmentOperators
      ∧ Lexes es mid (closing ++ ';' :: (behind ++ rest)) ∧ IsTrivia closing
      ∧ IsTrivia behind := by
  obtain ⟨before, tag, atOperator, rfl, all, isText, lexes⟩ := h.cons_inv
  obtain ⟨blanks, op, atBody, rfl, all', isText', lexes'⟩ := lexes.cons_inv
  obtain ⟨atSemicolon, body, lexes''⟩ := lexes'.append_inv
  obtain ⟨closing, semicolon, behind, rfl, isTrivia, isTrivia', ⟨⟩⟩ :=
    lexes''.single_inv
  cases isText with
  | tag isTag =>
    cases isText' with
    | operator mem =>
      exact ⟨before, tag, blanks, op, atBody, closing, behind, rfl,
        isTrivia_of_isBlank all, isTag, all', mem,
        by simpa using body, isTrivia, isTrivia'⟩

theorem SpellsDefinition.isDefinition {d : Definition}
    {es : List Lexeme} (h : SpellsDefinition d es) {text rest : List Char}
    (lexes : Lexes es text rest) :
    ∃ before cs behind, text = before ++ (cs ++ (behind ++ rest))
      ∧ IsTrivia before ∧ IsDefinition d cs
      ∧ IsTrivia behind := by
  cases h with
  | rule alternatives some =>
    obtain ⟨before, tag, blanks, op, mid, closing, behind, rfl, isTrivia, isTag,
        all, mem, body, isTrivia', ending⟩ :=
      lexes.definition_inv
    obtain ⟨cs, rfl, isAlternatives⟩ :=
      alternatives.isAlternatives body (by simp)
    have rule := IsDefinition.rule isTag all mem
      (isAlternatives.append_trivia isTrivia') some
    exact ⟨before, _, behind, by simp, isTrivia, rule, ending⟩
  | parameter sequence =>
    obtain ⟨before, tag, blanks, op, mid, closing, behind, rfl, isTrivia, isTag,
        all, mem, body, isTrivia', ending⟩ :=
      lexes.definition_inv
    obtain ⟨cs, rfl, isSequence⟩ := sequence.isSequence body (by simp)
    obtain ⟨front, back, rfl, atFront, pattern, atBack⟩ :=
      isSequence.literal_inv rfl
    have parameter := IsDefinition.parameter isTag all mem atFront pattern
      (atBack.append isTrivia')
    exact ⟨before, _, behind, by simp, isTrivia, parameter, ending⟩

theorem SpellsGrammar.isGrammarText {ds : List Definition} {es : List Lexeme}
    (h : SpellsGrammar ds es) {text : List Char} (lexes : Lexes es text []) :
    IsGrammarText ds text := by
  induction h generalizing text with
  | nil =>
    obtain ⟨trivia, rfl, isTrivia⟩ := lexes.isTrivia
    rw [List.append_nil]
    exact .ending (.trivia isTrivia)
  | comment spells ih =>
    obtain ⟨blanks, cs, mid, rfl, all, isText, others⟩ := lexes.cons_inv
    have rest := ih others
    refine IsGrammarText.trivia_append ?_ (isTrivia_of_isBlank all)
    cases isText with
    | comment inLine => exact rest.trivia_append (.comment inLine .nil)
    | lastComment inLine =>
      -- nothing is left for definitions
      generalize empty : [] = behind at rest
      cases rest with
      | ending =>
        rw [← empty, List.append_nil]
        exact .ending (.comment .nil inLine)
      | definition _ isDefinition =>
        obtain ⟨tail, rfl⟩ := isDefinition.exists_cons
        simp at empty
  | definition spells _ ih =>
    obtain ⟨mid, first, others⟩ := lexes.append_inv
    obtain ⟨before, cs, behind, rfl, isTrivia, isDefinition, isTrivia'⟩ :=
      spells.isDefinition first
    exact .definition isTrivia isDefinition
      ((ih others).trivia_append isTrivia')

/-- A text is one of definitions exactly if its lexemes spell them. -/
theorem isGrammarText_iff_spells {ds : List Definition} {text : List Char}
    {es : List Lexeme} (lexes : Lexes es text []) :
    IsGrammarText ds text ↔ SpellsGrammar ds es := by
  constructor
  · intro isText
    obtain ⟨fs, spells, lexes'⟩ := isText.spells
    rwa [lexes.unique lexes']
  · intro spells
    exact spells.isGrammarText lexes

end Lexigram
