import Mathlib.Data.List.Chain
import Lexigram.Proofs.Grammar.Denotation
import Lexigram.Proofs.Grammar.Spelling

/-!
Comments between lexemes. An accepted text may be given a comment in front of
any of its lexemes but an assignment operator and the suffix of a group: with a
comment there it is refused (`ofText?_commented`).
-/

namespace Lexigram

open Text

/-! ## Where lexemes spell no comment -/

/-- Whether only blanks may stand in front of a lexeme: an operator belongs to
the tag in front of it, a suffix to the bracket. -/
def Lexeme.isAttached : Lexeme → Bool
  | .operator | .suffix _ => true
  | _ => false

/-- Whether no comment stands in front of a lexeme that is attached. -/
def Tight (es : List Lexeme) : Prop :=
  es.IsChain fun e f => e = .comment → f.isAttached = false

namespace Tight

variable {e : Lexeme} {es fs : List Lexeme}

theorem cons (other : e ≠ .comment) (h : Tight es) : Tight (e :: es) :=
  List.isChain_cons.mpr ⟨fun _ _ same => absurd same other, h⟩

theorem tail (h : Tight (e :: es)) : Tight es :=
  (List.isChain_cons.mp h).2

/-- What may stand behind a comment may stand anywhere. -/
theorem append (h : Tight es) (h' : Tight (.comment :: fs)) :
    Tight (es ++ fs) := by
  obtain ⟨first, tight⟩ := List.isChain_cons.mp h'
  exact List.isChain_append.mpr ⟨h, tight, fun _ _ f mem _ => first f mem rfl⟩

theorem comment_cons (attached : e.isAttached = false) (h : Tight (e :: es)) :
    Tight (.comment :: e :: es) :=
  List.isChain_cons.mpr ⟨by rintro _ ⟨⟩ -; exact attached, h⟩

theorem not_isAttached (h : Tight (es ++ .comment :: e :: fs)) :
    e.isAttached = false := by
  have behind : Tight (.comment :: e :: fs) := (List.isChain_append.mp h).2.1
  exact (List.isChain_cons.mp behind).1 e rfl rfl

theorem multiplicity (m : Multiplicity) : Tight (.closing :: m.lexemes) := by
  have some : Tight [.closing, .suffix m] :=
    cons nofun (List.isChain_singleton _)
  cases m with
  | one => exact List.isChain_singleton _
  | optional => exact some
  | zeroOrMore => exact some
  | oneOrMore => exact some

end Tight

theorem SpellsSequence.tight {ts : List (Token String)} {es : List Lexeme}
    (h : SpellsSequence ts es) :
    Tight (.comment :: es) := by
  induction h with
  | nil => exact List.isChain_singleton _
  | comment => exact .comment_cons rfl (List.isChain_singleton _)
  | reference => exact .comment_cons rfl (List.isChain_singleton _)
  | literal => exact .comment_cons rfl (List.isChain_singleton _)
  | group m _ ih =>
    have closing : Tight (.comment :: .closing :: m.lexemes) :=
      .comment_cons rfl (.multiplicity m)
    exact .comment_cons rfl (.cons nofun (ih.tail.append closing))
  | append _ _ first second => exact first.append second

theorem SpellsAlternatives.tight {as : List (Alternative String)}
    {es : List Lexeme} (h : SpellsAlternatives as es) :
    Tight (.comment :: es) := by
  induction h with
  | sequence first => exact first.tight
  | bar _ last ih =>
    exact ih.append (.comment_cons rfl (.cons nofun last.tight.tail))

theorem SpellsDefinition.tight {d : Definition} {es : List Lexeme}
    (h : SpellsDefinition d es) :
    Tight (.comment :: es) := by
  have body {mark : Mark} {name : String} {fs : List Lexeme}
    (tight : Tight fs) :
      Tight (.comment :: .tag mark name :: .operator ::
        (fs ++ [.semicolon])) := by
    have semicolon : Tight [.comment, .semicolon] :=
      .comment_cons rfl (List.isChain_singleton _)
    exact .comment_cons rfl (.cons nofun (.cons nofun (tight.append semicolon)))
  cases h with
  | rule alternatives => exact body alternatives.tight.tail
  | parameter sequence => exact body sequence.tight.tail

theorem SpellsGrammar.tight {ds : List Definition} {es : List Lexeme}
    (h : SpellsGrammar ds es) :
    Tight (.comment :: es) := by
  induction h with
  | nil => exact List.isChain_singleton _
  | comment _ ih => exact .comment_cons rfl ih
  | definition isDefinition _ ih => exact isDefinition.tight.append ih

/-! ## A comment more -/

/-- Whether the second list has one comment more than the first, in front of a
lexeme that is not attached. -/
inductive Commented : List Lexeme → List Lexeme → Prop
  | here {e : Lexeme} {es : List Lexeme} :
      e.isAttached = false → Commented (e :: es) (.comment :: e :: es)
  | later {e : Lexeme} {es fs : List Lexeme} :
      Commented es fs → Commented (e :: es) (e :: fs)

namespace Commented

variable {e : Lexeme} {es fs gs : List Lexeme}

theorem between (attached : e.isAttached = false) (es fs : List Lexeme) :
    Commented (es ++ e :: fs) (es ++ .comment :: e :: fs) := by
  induction es with
  | nil => exact .here attached
  | cons _ _ ih => exact .later ih

theorem append_inv (h : Commented (es ++ fs) gs) :
    (∃ es', Commented es es' ∧ gs = es' ++ fs) ∨ ∃ fs',
      Commented fs fs' ∧ gs = es ++ fs' := by
  induction es generalizing gs with
  | nil => exact .inr ⟨gs, h, rfl⟩
  | cons e es ih =>
    cases h with
    | here attached => exact .inl ⟨_, .here attached, rfl⟩
    | later others =>
      rcases ih others with ⟨es', inner, rfl⟩ | ⟨fs', inner, rfl⟩
      · exact .inl ⟨_, .later inner, rfl⟩
      · exact .inr ⟨_, inner, rfl⟩

/-- The comment stands in front of the only lexeme. -/
theorem single_inv (h : Commented [e] gs) : gs = [.comment, e] := by
  cases h with
  | here => rfl
  | later none => cases none

theorem not_multiplicity (m : Multiplicity) : ¬ Commented m.lexemes gs := by
  intro h
  cases m with
  | one => cases h
  | _ =>
    cases h with
    | here attached => cases attached
    | later none => cases none

end Commented

theorem SpellsSequence.comment_append {ts : List (Token String)}
    {es : List Lexeme} (h : SpellsSequence ts es) :
    SpellsSequence ts (.comment :: es) :=
  .append .comment h

theorem SpellsSequence.append_comment {ts : List (Token String)}
    {es : List Lexeme} (h : SpellsSequence ts es) :
    SpellsSequence ts (es ++ [.comment]) := by
  have more := h.append .comment
  rwa [List.append_nil] at more

theorem SpellsSequence.commented {ts : List (Token String)}
    {es fs : List Lexeme} (h : SpellsSequence ts es) (more : Commented es fs) :
    SpellsSequence ts fs := by
  induction h generalizing fs with
  | nil => cases more
  | comment => exact more.single_inv ▸ comment.comment_append
  | reference => exact more.single_inv ▸ reference.comment_append
  | literal => exact more.single_inv ▸ literal.comment_append
  | group m members ih =>
    cases more with
    | here => exact (group m members).comment_append
    | later inside =>
      rcases inside.append_inv with ⟨es', inner, rfl⟩ | ⟨fs', inner, rfl⟩
      · exact .group m (ih inner)
      · cases inner with
        | here =>
          have closing := members.append_comment.group m
          rwa [List.append_assoc] at closing
        | later suffix => exact absurd suffix (Commented.not_multiplicity m)
  | append first second ihFirst ihSecond =>
    rcases more.append_inv with ⟨es', inner, rfl⟩ | ⟨fs', inner, rfl⟩
    · exact .append (ihFirst inner) second
    · exact .append first (ihSecond inner)

theorem SpellsAlternatives.append_comment {as : List (Alternative String)}
    {es : List Lexeme} (h : SpellsAlternatives as es) :
    SpellsAlternatives as (es ++ [.comment]) := by
  cases h with
  | sequence only => exact .sequence only.append_comment
  | bar before last =>
    rw [List.append_assoc, List.cons_append]
    exact .bar before last.append_comment

theorem SpellsAlternatives.commented {as : List (Alternative String)}
    {es fs : List Lexeme} (h : SpellsAlternatives as es)
    (more : Commented es fs) : SpellsAlternatives as fs := by
  induction h generalizing fs with
  | sequence only => exact .sequence (only.commented more)
  | bar before last ih =>
    rcases more.append_inv with ⟨es', inner, rfl⟩ | ⟨fs', inner, rfl⟩
    · exact .bar (ih inner) last
    · cases inner with
      | here =>
        have bar := before.append_comment.bar last
        rwa [List.append_assoc] at bar
      | later behind => exact .bar before (last.commented behind)

/-- A comment in front of a definition does not belong to it. -/
theorem SpellsDefinition.commented {d : Definition} {es fs : List Lexeme}
    (h : SpellsDefinition d es) (more : Commented es fs) :
    SpellsDefinition d fs ∨ fs = .comment :: es := by
  -- the tag and the operator are followed by a body and its semicolon
  have body {mark : Mark} {name : String} {es fs : List Lexeme} (more :
      Commented (.tag mark name :: .operator :: (es ++ [.semicolon])) fs) :
      fs = .comment :: .tag mark name :: .operator :: (es ++ [.semicolon]) ∨
      ∃ es', (Commented es es' ∨ es' = es ++ [.comment]) ∧
        fs = .tag mark name :: .operator :: (es' ++ [.semicolon]) := by
    cases more with
    | here => exact .inl rfl
    | later more =>
      cases more with
      | here attached => cases attached
      | later more =>
        rcases more.append_inv with ⟨es', inner, rfl⟩ | ⟨fs', inner, rfl⟩
        · exact .inr ⟨es', .inl inner, rfl⟩
        · exact .inr ⟨es ++ [.comment], .inr rfl, by simp [inner.single_inv]⟩
  cases h with
  | rule alternatives some =>
    rcases body more with same | ⟨es', inner | rfl, rfl⟩
    · exact .inr same
    · exact .inl (.rule (alternatives.commented inner) some)
    · exact .inl (.rule alternatives.append_comment some)
  | parameter sequence =>
    rcases body more with same | ⟨es', inner | rfl, rfl⟩
    · exact .inr same
    · exact .inl (.parameter (sequence.commented inner))
    · exact .inl (.parameter sequence.append_comment)

theorem SpellsGrammar.commented {ds : List Definition} {es fs : List Lexeme}
    (h : SpellsGrammar ds es) (more : Commented es fs) :
    SpellsGrammar ds fs := by
  induction h generalizing fs with
  | nil => cases more
  | comment others ih =>
    cases more with
    | here => exact .comment (.comment others)
    | later more => exact .comment (ih more)
  | definition isDefinition others ih =>
    rcases more.append_inv with ⟨es', inner, rfl⟩ | ⟨fs', inner, rfl⟩
    · rcases isDefinition.commented inner with spells | rfl
      · exact .definition spells others
      · exact .comment (.definition isDefinition others)
    · exact .definition isDefinition (ih inner)

/-! ## Texts with a comment more -/

/-- The lexemes of a text with a comment put in, with its line. -/
theorem Lexes.insert_comment {before after line : List Char}
    {es fs : List Lexeme} {e : Lexeme}
    (front : Lexes es (before ++ after) after) (back : Lexes (e :: fs) after [])
    (inLine : '\n' ∉ line) :
    Lexes (es ++ .comment :: e :: fs) (before ++ '#' :: (line ++ '\n' :: after))
      [] := by
  obtain ⟨blanks, cs, mid, rfl, -, isText, -⟩ := back.cons_inv
  have some : blanks ++ (cs ++ mid) ≠ [] := by
    have read := isText.read?_eq
    intro empty
    rw [(List.append_eq_nil_iff.mp empty).2] at read
    cases read
  obtain ⟨front', eq, exchanged⟩ := front.exchange
  obtain rfl := List.append_cancel_right eq
  have comment : Lexeme.IsText .comment ('#' :: (line ++ ['\n']))
    (blanks ++ (cs ++ mid)) := .comment inLine
  have behind := Lexes.cons comment back
  have front := exchanged ('#' :: (line ++ '\n' :: (blanks ++ (cs ++ mid))))
    (by simp) (fun none => absurd none some)
  refine front.trans ?_
  simpa using behind

namespace Grammar

/-- **Comments may stand between lexemes, but not before operators and
suffixes.** An accepted text has one list of lexemes. With a comment put in
front of one of them, which may be anywhere among the blanks there, it is read
as the same grammar, unless the lexeme is an operator or a suffix: then it is
refused. -/
theorem ofText?_commented {text : List Char} {g : Grammar}
    (read : ofText? text = .ok g) :
    (∃! es, Lexes es text []) ∧
    ∀ before after line es e fs, text = before ++ after → Lexes es text after →
      Lexes (e :: fs) after [] → '\n' ∉ line →
      (e.isAttached = false →
        ofText? (before ++ '#' :: (line ++ '\n' :: after)) = .ok g) ∧
      (e.isAttached = true → ∃ error,
        ofText? (before ++ '#' :: (line ++ '\n' :: after)) = .error error) := by
  obtain ⟨ds, isText, distinct, denotes⟩ :=
    ofText?_eq_ok_iff_isGrammarText.mp read
  obtain ⟨all, -, lexes⟩ := isText.spells
  refine ⟨⟨all, lexes, fun es lexes' => lexes'.unique lexes⟩, ?_⟩
  intro before after line es e fs cut front back inLine
  subst cut
  have spells := (isGrammarText_iff_spells (front.trans back)).mp isText
  have more := front.insert_comment back inLine
  constructor
  · intro attached
    have isText' := (isGrammarText_iff_spells more).mpr
      (spells.commented (.between attached es fs))
    exact ofText?_eq_ok_iff_isGrammarText.mpr ⟨ds, isText', distinct, denotes⟩
  · intro attached
    cases result : ofText? (before ++ '#' :: (line ++ '\n' :: after)) with
    | error error => exact ⟨error, rfl⟩
    | ok h =>
      obtain ⟨ds', isText', -, -⟩ := ofText?_eq_ok_iff_isGrammarText.mp result
      have tight := ((isGrammarText_iff_spells more).mp isText').tight.tail
      rw [tight.not_isAttached] at attached
      cases attached

/-- `<a>={"x"}*;` -/
def starredGroup : List Char :=
  ['<', 'a', '>', '=', '\x7b', '"', 'x', '"', '\x7d', '*', ';']

theorem ofText?_starredGroup :
    ofText? starredGroup = .ok (ofDefinitions
      [.rule "a" false [[.group .zeroOrMore [.literal "x"]]]]) := by
  have read : Reading.ofText starredGroup
      = ⟨[.rule "a" false [[.group .zeroOrMore [.literal "x"]]]], none⟩ := by
    decide +kernel
  rw [ofText?, read]
  rfl

/-- Its lexemes, in front of the operator, in front of the literal and in front
of the suffix. -/
theorem lexes_starredGroup :
    Lexes [.tag .none "a"] starredGroup (starredGroup.drop 3) ∧
    Lexes [.operator, .opening] (starredGroup.drop 3) (starredGroup.drop 5) ∧
    Lexes [.literal "x", .closing] (starredGroup.drop 5) (starredGroup.drop 9) ∧
    Lexes [.suffix .zeroOrMore, .semicolon] (starredGroup.drop 9) [] := by
  have tag : IsTag .none "a" ['<', 'a', '>'] :=
    .intro (List.forall_mem_nil _) (by decide) (List.forall_mem_nil _)
  have operator : Lexeme.IsText .operator ['='] (starredGroup.drop 4) :=
    .operator (by decide) (by decide)
  have pattern : IsPatternText "x".toList := .char (by decide) (by decide) .nil
  refine ⟨.single (.tag tag), .cons operator (.single .opening),
    .cons (.literal pattern) (.single .closing), ?_⟩
  exact .cons (.suffix rfl) (.single .semicolon)

/-- The group may have a comment in front of its member, but none in front of
its suffix. -/
theorem starredGroup_comments : ∃ g, ofText? starredGroup = .ok g ∧
    ofText? ("<a>=\x7b# c\n\"x\"\x7d*;".toList) = .ok g ∧
    ∃ error, ofText? ("<a>=\x7b\"x\"\x7d# c\n*;".toList) = .error error := by
  obtain ⟨atOperator, atLiteral, atSuffix, atEnd⟩ := lexes_starredGroup
  have comments := (ofText?_commented ofText?_starredGroup).2
  refine ⟨_, ofText?_starredGroup, ?_, ?_⟩
  · exact (comments (starredGroup.take 5) _ [' ', 'c'] _ _ _ rfl
      (atOperator.trans atLiteral) (atSuffix.trans atEnd) (by decide)).1 rfl
  · exact (comments (starredGroup.take 9) _ [' ', 'c'] _ _ _ rfl
      ((atOperator.trans atLiteral).trans atSuffix) atEnd (by decide)).2 rfl

/-- Between the tag and the operator no comment may stand. -/
theorem starredGroup_refused : ¬ ∀ text g before after line es fs,
    ofText? text = .ok g → text = before ++ after →
    Lexes es text after → es ≠ [] → Lexes fs after [] → fs ≠ [] → '\n' ∉ line →
    ofText? (before ++ '#' :: (line ++ '\n' :: after)) = .ok g := by
  intro kept
  obtain ⟨atOperator, atLiteral, atSuffix, atEnd⟩ := lexes_starredGroup
  have same := kept starredGroup _ (starredGroup.take 3) (starredGroup.drop 3)
    [' ', 'c'] _ _ ofText?_starredGroup rfl atOperator nofun
    (atLiteral.trans (atSuffix.trans atEnd)) nofun (by decide)
  have refused : (Reading.ofText (starredGroup.take 3 ++ '#' ::
      ([' ', 'c'] ++ '\n' :: starredGroup.drop 3))).error
      = some ⟨⟨1, 4⟩, .missingAssignment "a"⟩ := by
    decide +kernel
  rw [ofText?_eq_error_iff.mpr refused] at same
  cases same

end Grammar

end Lexigram
