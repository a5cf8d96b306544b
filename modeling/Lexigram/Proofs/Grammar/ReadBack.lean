import Lexigram.Proofs.Grammar.Leaves
import Lexigram.Proofs.Grammar.Recognized

/-!
Reading back what was written. The text of definitions that can be written at
all, with names of name characters and quotable patterns, is one of these
definitions in the notation, but for an alternative whose only token is the
empty literal: it is written like the alternative without tokens, and read as
that. What is read can be written.
-/

namespace Lexigram

open Text

/-- Whether tokens can be written: their literals are quotable and their targets
are names. -/
def IsWritable (ts : List (Token String)) : Prop :=
  (∀ p ∈ Token.patterns ts, IsQuotable p.toList) ∧ ∀ name ∈ Token.targets ts,
    IsName name

/-- Whether a definition can be written. -/
def Definition.IsWritable : Definition → Prop
  | .rule name _ as => IsName name ∧ as ≠ [] ∧ ∀ a ∈ as, Lexigram.IsWritable a
  | .parameter key value => IsName key ∧ IsQuotable value.toList

/-- Whether definitions can be written one after the other: none defines a rule
that was defined before, or one in `known`. -/
def AreWritable (known : List String) : List Definition → Prop
  | [] => True
  | d :: ds =>
    (d.IsWritable ∧ ∀ name ∈ d.ruleName?, name ∉ known) ∧
      AreWritable (d.ruleName?.toList ++ known) ds

/-- What is read of an alternative that was written. -/
def Alternative.readBack {ι : Type} (a : Alternative ι) : Alternative ι :=
  match a with
  | [.literal ""] => []
  | a => a

/-- What is read of a definition that was written. -/
def Definition.readBack : Definition → Definition
  | .rule name start as => .rule name start (as.map Alternative.readBack)
  | .parameter key value => .parameter key value

theorem Definition.ruleName?_readBack (d : Definition) :
    d.readBack.ruleName? = d.ruleName? := by
  cases d <;> rfl

/-! ## What is written -/

theorem isSequence_reference {name : String} (h : IsName name) :
    IsSequence [.reference name] (Token.reference name).write :=
  .reference (@IsTag.intro _ _ [] [] (List.forall_mem_nil _) h
    (List.forall_mem_nil _))

theorem isSequence_literal {p : String} (h : IsQuotable p.toList) :
    IsSequence [.literal p] (Token.literal p).write := by
  rw [Token.write, writeLiteral, h.1]
  exact .literal (isPatternText_iff.mpr h)

theorem isGroupSuffix_suffix : (m : Multiplicity) → IsGroupSuffix m m.suffix
  | .one => .none
  | .optional => @IsGroupSuffix.char _ '?' [] (List.forall_mem_nil _) rfl
  | .zeroOrMore => @IsGroupSuffix.char _ '*' [] (List.forall_mem_nil _) rfl
  | .oneOrMore => @IsGroupSuffix.char _ '+' [] (List.forall_mem_nil _) rfl

/-- A sequence goes on behind a blank. -/
theorem isSequence_writeTail {ts : List (Token String)}
    (h : IsSequence ts (Token.writeAll ts)) :
    IsSequence ts (Token.writeTail ts) := by
  cases ts with
  | nil => exact .trivia .nil
  | cons t ts => exact .append (.trivia (.blank (by decide) .nil)) h

/-- The text of a sequence that can be written. -/
theorem isSequence_writeAll {ts : List (Token String)}
    (writable : IsWritable ts) :
    IsSequence ts (Token.writeAll ts) := by
  induction ts using Token.sequence_induction with
  | nil => exact .trivia .nil
  | literal p ts ih =>
    simp only [IsWritable, Token.patterns_literal,
      Token.targets_literal, List.forall_mem_cons] at writable
    obtain ⟨⟨quotable, patterns⟩, targets⟩ := writable
    exact .append (isSequence_literal quotable)
      (isSequence_writeTail (ih ⟨patterns, targets⟩))
  | reference name ts ih =>
    simp only [IsWritable, Token.patterns_reference,
      Token.targets_reference, List.forall_mem_cons] at writable
    obtain ⟨patterns, isName, targets⟩ := writable
    exact .append (isSequence_reference isName)
      (isSequence_writeTail (ih ⟨patterns, targets⟩))
  | group m members ts inside ih =>
    simp only [IsWritable, Token.patterns_group,
      Token.targets_group, List.forall_mem_append] at writable
    obtain ⟨⟨patterns, morePatterns⟩, targets, moreTargets⟩ := writable
    have group : IsSequence [.group m members]
        (Token.group m members).write := by
      rw [Token.write]
      exact .group (inside ⟨patterns, targets⟩) (isGroupSuffix_suffix m)
    exact .append group (isSequence_writeTail (ih ⟨morePatterns, moreTargets⟩))

/-- What is written of an alternative stands for what is read of it. -/
theorem exists_isSequence_write {a : Alternative String}
    (writable : IsWritable a) :
    ∃ ts, kept ts = [a.readBack] ∧ IsSequence ts a.write := by
  cases a with
  | nil => exact ⟨[.literal ""], rfl, isSequence_literal isQuotable_nil⟩
  | cons t ts =>
    refine ⟨t :: ts, ?_, isSequence_writeAll writable⟩
    unfold kept Alternative.readBack
    split <;> simp_all

/-- Alternatives go on behind a bar. -/
theorem IsAlternatives.append_write {done as : List (Alternative String)}
    {cs : List Char} (h : IsAlternatives done cs)
    (writable : ∀ a ∈ as, IsWritable a) :
    IsAlternatives (done ++ as.map Alternative.readBack)
      (cs ++ as.flatMap fun a => [' ', '|', ' '] ++ a.write) := by
  induction as generalizing done cs with
  | nil => simpa using h
  | cons a as ih =>
    rw [List.forall_mem_cons] at writable
    obtain ⟨ts, stands, isSequence⟩ := exists_isSequence_write writable.1
    have blank : IsTrivia [' '] := .blank (by decide) .nil
    have more :=
      ih (.bar (h.append_trivia blank) (.append (.trivia blank) isSequence))
        writable.2
    simpa [stands] using more

theorem isAlternatives_write {as : List (Alternative String)} (some : as ≠ [])
    (writable : ∀ a ∈ as, IsWritable a) :
    IsAlternatives (as.map Alternative.readBack) (writeAlternatives as) := by
  obtain ⟨a, as, rfl⟩ := List.exists_cons_of_ne_nil some
  rw [List.forall_mem_cons] at writable
  obtain ⟨ts, stands, isSequence⟩ := exists_isSequence_write writable.1
  have first : IsAlternatives (kept ts) (' ' :: a.write) :=
    .sequence (.append (.trivia (.blank (by decide) .nil)) isSequence)
  rw [stands] at first
  exact first.append_write writable.2

/-- The text of a definition that can be written is one of what is read of
it. -/
theorem isDefinition_write {d : Definition} (writable : d.IsWritable) :
    IsDefinition d.readBack d.write := by
  have blank : IsTrivia [' '] := .blank (by decide) .nil
  have blanks : ∀ c ∈ [' '], isBlank c = true :=
    List.forall_mem_singleton.mpr (by decide)
  cases d with
  | parameter key value =>
    obtain ⟨isName, quotable⟩ := writable
    have isTag : IsTag .parameter key ('<' :: '#' :: (key.toList ++ ['>'])) :=
      @IsTag.intro _ _ [] [] (List.forall_mem_nil _) isName
        (List.forall_mem_nil _)
    have isOperator : [':', '='] ∈ assignmentOperators := by decide
    have text := IsDefinition.parameter isTag blanks isOperator blank
      (isPatternText_iff.mpr quotable) blank
    simpa [Definition.write, Definition.readBack, writeLiteral, quotable.1]
      using text
  | rule name start as =>
    obtain ⟨isName, some, writable⟩ := writable
    have isTag : IsTag (if start then .start else .none) name
        ('<' :: ((if start then ['!'] else []) ++ (name.toList ++ ['>']))) := by
      have marked : ∀ mark : Mark, IsTag mark name
          ('<' :: (mark.text ++ (name.toList ++ ['>']))) := fun mark =>
        @IsTag.intro _ _ [] [] (List.forall_mem_nil _) isName
          (List.forall_mem_nil _)
      cases start
      · exact marked .none
      · exact marked .start
    have isOperator : [':', ':', '='] ∈ assignmentOperators := by decide
    have some' : as.map Alternative.readBack ≠ [] := by simpa using some
    have text := IsDefinition.rule isTag blanks isOperator
      ((isAlternatives_write some writable).append_trivia blank) some'
    simpa [Definition.write, Definition.readBack] using text

theorem isGrammarText_write {ds : List Definition}
    (writable : ∀ d ∈ ds, d.IsWritable) :
    IsGrammarText (ds.map Definition.readBack) (writeDefinitions ds) := by
  have line : IsTrivia ['\n'] := .blank (by decide) .nil
  induction ds with
  | nil => exact .ending (.trivia .nil)
  | cons d ds ih =>
    rw [List.forall_mem_cons] at writable
    have text := IsGrammarText.definition .nil (isDefinition_write writable.1)
      ((ih writable.2).trivia_append line)
    simpa [writeDefinitions] using text

/-! ## What can be written -/

theorem isWritable_nil : IsWritable [] :=
  ⟨List.forall_mem_nil _, List.forall_mem_nil _⟩

theorem isWritable_append {ts us : List (Token String)} :
    IsWritable (ts ++ us) ↔ IsWritable ts ∧ IsWritable us := by
  simp only [IsWritable, Token.patterns_append,
    Token.targets_append, List.forall_mem_append]
  exact and_and_and_comm

theorem IsSequence.isWritable {ts : List (Token String)} {cs : List Char}
    (h : IsSequence ts cs) :
    IsWritable ts := by
  induction h with
  | trivia => exact isWritable_nil
  | reference tag =>
    obtain ⟨-, isName, -⟩ := tag
    simpa [IsWritable] using isName
  | literal pattern => simpa [IsWritable] using pattern.isQuotable
  | group _ _ ih => simpa [IsWritable] using ih
  | append _ _ first second => exact isWritable_append.mpr ⟨first, second⟩

theorem isWritable_kept {ts : List (Token String)} (h : IsWritable ts) :
    ∀ a ∈ kept ts, IsWritable a := by
  unfold kept
  split
  · exact List.forall_mem_nil _
  · exact List.forall_mem_singleton.mpr isWritable_nil
  · exact List.forall_mem_singleton.mpr h

theorem IsAlternatives.isWritable {as : List (Alternative String)}
    {cs : List Char} (h : IsAlternatives as cs) :
    ∀ a ∈ as, IsWritable a := by
  induction h with
  | sequence first => exact isWritable_kept first.isWritable
  | bar _ last ih =>
    exact List.forall_mem_append.mpr ⟨ih, isWritable_kept last.isWritable⟩

theorem IsDefinition.isWritable {d : Definition} {cs : List Char}
    (h : IsDefinition d cs) : d.IsWritable := by
  cases h with
  | rule isTag _ _ alternatives some =>
    obtain ⟨-, isName, -⟩ := isTag
    exact ⟨isName, some, alternatives.isWritable⟩
  | parameter isTag _ _ _ pattern =>
    obtain ⟨-, isName, -⟩ := isTag
    exact ⟨isName, pattern.isQuotable⟩

theorem IsGrammarText.isWritable {ds : List Definition} {cs : List Char}
    (h : IsGrammarText ds cs) :
    ∀ d ∈ ds, d.IsWritable := by
  induction h with
  | ending => exact List.forall_mem_nil _
  | definition _ isDefinition _ ih =>
    exact List.forall_mem_cons.mpr ⟨isDefinition.isWritable, ih⟩

/-- Definitions can be written one after the other if each can, and none defines
a rule again. -/
theorem areWritable_iff {known : List String} {ds : List Definition}
    (distinct : known.Nodup) :
    AreWritable known ds
      ↔ (∀ d ∈ ds, d.IsWritable) ∧
      (ds.filterMap Definition.ruleName? ++ known).Nodup := by
  induction ds generalizing known with
  | nil => simpa [AreWritable] using distinct
  | cons d ds ih =>
    have new : (∀ name ∈ d.ruleName?, name ∉ known) ↔
        (d.ruleName?.toList ++ known).Nodup := by
      cases d.ruleName? with
      | none => simpa using distinct
      | some name => simpa using fun _ => distinct
    rw [AreWritable, nodup_ruleNames_cons, List.forall_mem_cons, new]
    constructor
    · rintro ⟨⟨own, new⟩, others⟩
      obtain ⟨writable, distinct'⟩ := (ih new).mp others
      exact ⟨⟨own, writable⟩, distinct'⟩
    · rintro ⟨⟨own, writable⟩, distinct'⟩
      have new := (List.nodup_append.mp distinct').2.1
      exact ⟨⟨own, new⟩, (ih new).mpr ⟨writable, distinct'⟩⟩

/-! ## Reading back -/

/-- Definitions that can be written are read back from their text. -/
theorem ofText_writeDefinitions {ds : List Definition}
    (writable : AreWritable [] ds) :
    Reading.ofText (writeDefinitions ds)
      = ⟨ds.map Definition.readBack, none⟩ := by
  obtain ⟨each, distinct⟩ := (areWritable_iff List.nodup_nil).mp writable
  have same : (ds.map Definition.readBack).filterMap Definition.ruleName?
      = ds.filterMap Definition.ruleName? := by
    rw [List.filterMap_map]
    exact congrArg (ds.filterMap ·) (funext Definition.ruleName?_readBack)
  exact (isGrammarText_write each).readAll_eq (by rwa [same]) .start

/-- All that is read of a text can be written. -/
theorem areWritable_of_result {text : List Char} {ds : List Definition}
    (read : (Reading.ofText text).result = .ok ds) : AreWritable [] ds := by
  obtain ⟨isText, distinct⟩ := Reading.ofText_result_eq_ok_iff.mp read
  exact (areWritable_iff List.nodup_nil).mpr
    ⟨isText.isWritable, by rwa [List.append_nil]⟩

/-- A grammar that is read is the one of the definitions read of its text. -/
theorem Grammar.ofText?_eq_ok_iff_ofDefinitions {text : List Char}
    {g : Grammar} :
    Grammar.ofText? text = .ok g ↔ ∃ ds,
      (Reading.ofText text).result = .ok ds ∧ Grammar.ofDefinitions ds = g := by
  rw [Grammar.ofText?]
  cases (Reading.ofText text).result with
  | error e => simp [Except.map]
  | ok ds => simp [Except.map]

end Lexigram
