import Lexigram.Log
import Lexigram.Grammar.Definition
import Lexigram.Text.Blank
import Lexigram.Text.Place
import Lexigram.Text.Quoted

/-!
Reading the notation for grammars.

    # comment
    <!start> ::= <item> {"," <item>}* ;
    <item>   :=  "[a-z]+" | <number> ;
    <#name>  :=  "value" ;

A cursor stands in front of the text that is still to be read and knows its
place. Reading goes from left to right and stops at the first error;
`Reading.ofText` also returns the definitions in front of it. Every step leaves
less text than it found, which is what the recursions end by.
-/

namespace Lexigram

open Text

/-- What can be wrong with the text of a grammar. -/
inductive ReadFault where
  | unterminatedTag
  | emptyTag
  | invalidTagCharacter (c : Char)
  | unterminatedLiteral
  | unterminatedGroup
  | missingTerminator (rule : String)
  | missingAssignment (rule : String)
  | emptyRule (rule : String)
  | invalidParameter (key : String)
  | duplicateRule (rule : String)
  | unexpectedCharacter (c : Char)
  deriving Repr, DecidableEq

/-- The fault in words. -/
def ReadFault.message : ReadFault → String
  | unterminatedTag => "tag hasn't ended"
  | emptyTag => "tag is empty"
  | invalidTagCharacter c => "wrong character " ++ quotedChar c ++ " in a tag"
  | unterminatedLiteral => "string hasn't ended"
  | unterminatedGroup => "group hasn't ended"
  | missingTerminator rule =>
    "rule <" ++ rule ++ "> is missing the ';' terminator"
  | missingAssignment rule =>
    "rule <" ++ rule ++ "> has no definition-assignment operator"
  | emptyRule rule => "rule <" ++ rule ++ "> has no options"
  | invalidParameter key =>
    "parameter <#" ++ key ++ "> must be defined by a single string"
  | duplicateRule rule => "rule <" ++ rule ++ "> is defined more than once"
  | unexpectedCharacter c => "wrong token start symbol " ++ quotedChar c

/-- A fault and where it is. -/
structure ReadError where
  place : Place
  fault : ReadFault
  deriving Repr, DecidableEq

/-- The error in words, its place first. -/
def ReadError.message (e : ReadError) : String :=
  "[" ++ e.place.render ++ "] " ++ e.fault.message

/-- The text still to be read, and where it starts. -/
structure Cursor where
  rest : List Char
  place : Place
  deriving Repr, DecidableEq

namespace Cursor

/-- In front of a whole text. -/
def ofText (text : List Char) : Cursor := ⟨text, .start⟩

/-- Moves over the first `n` characters. -/
def advance (cur : Cursor) (n : Nat) : Cursor :=
  ⟨cur.rest.drop n, cur.place.past (cur.rest.take n)⟩

/-- Moves over the characters up to the first that fails `p`. -/
def skipWhile (cur : Cursor) (p : Char → Bool) : Cursor :=
  ⟨cur.rest.dropWhile p, cur.place.past (cur.rest.takeWhile p)⟩

/-- An error at the cursor. -/
def fail (cur : Cursor) {α : Type} (fault : ReadFault) : Except ReadError α :=
  .error ⟨cur.place, fault⟩

theorem length_advance (cur : Cursor) (n : Nat) :
    (cur.advance n).rest.length = cur.rest.length - n := by
  simp [advance]

theorem length_dropWhile_le (p : Char → Bool) (cs : List Char) :
    (cs.dropWhile p).length ≤ cs.length :=
  (List.dropWhile_sublist p).length_le

theorem length_skipWhile_le (cur : Cursor) (p : Char → Bool) :
    (cur.skipWhile p).rest.length ≤ cur.rest.length :=
  length_dropWhile_le p cur.rest

end Cursor

/-- Moves over blanks and comments. -/
def Cursor.skipTrivia (cur : Cursor) : Cursor :=
  ⟨(spanTrivia false cur.rest).2, cur.place.past (spanTrivia false cur.rest).1⟩

theorem Cursor.length_skipTrivia_le (cur : Cursor) :
    cur.skipTrivia.rest.length ≤ cur.rest.length :=
  length_spanTrivia_le false cur.rest

/-- The characters of names. -/
def isNameChar (c : Char) : Bool :=
  Unicode.isAsciiAlphanumeric c.toNat || c == '_' || c == '-'

/-- Reads a name up to and including the bracket that closes it. Spaces may
stand before the bracket. -/
def readName (cur : Cursor) : Except ReadError (String × Cursor) :=
  let name := cur.rest.takeWhile isNameChar
  let behind := cur.skipWhile isNameChar
  let close := behind.skipWhile isSpace
  match close.rest with
  | [] => close.fail .unterminatedTag
  | '>' :: _ =>
    let next := close.advance 1
    if name.isEmpty then next.fail .emptyTag else .ok (String.ofList name, next)
  | c :: _ => close.fail (.invalidTagCharacter c)

/-- Reads a pattern up to and including the quote that closes it. A backslash
takes the character after it along, and both stay in the pattern. `start` is
where the literal's opening quote is. -/
def readLiteralFrom (start : Place) (escaped : Bool) (p : Place)
    (read : List Char) :
    List Char → Except ReadError (String × Cursor)
  | [] => .error ⟨start, .unterminatedLiteral⟩
  | c :: cs =>
    if c = '"' ∧ !escaped then .ok (String.ofList read.reverse, ⟨cs, p.after c⟩)
    else readLiteralFrom start (c = '\\' && !escaped) (p.after c) (c :: read) cs

/-- Reads a literal from its opening quote on. -/
def readLiteral (cur : Cursor) : Except ReadError (String × Cursor) :=
  let inside := cur.advance 1
  readLiteralFrom cur.place false inside.place [] inside.rest

/-- The operators between a name and its definition, longest first. -/
def assignmentOperators : List (List Char) :=
  [[':', ':', '=', '='], [':', ':', '='], [':', '=', '='], [':', '='], ['=']]

/-- Reads an assignment operator, the longest that fits. -/
def readAssignment (name : String) (cur : Cursor) : Except ReadError Cursor :=
  let cur := cur.skipWhile isBlank
  match assignmentOperators.find? (·.isPrefixOf cur.rest) with
  | some op => .ok (cur.advance op.length)
  | none => cur.fail (.missingAssignment name)

theorem length_readName {cur next : Cursor} {name : String}
    (h : readName cur = .ok (name, next)) :
    next.rest.length < cur.rest.length := by
  have inner := (cur.skipWhile isNameChar).length_skipWhile_le isSpace
  have outer := cur.length_skipWhile_le isNameChar
  simp only [readName] at h
  split at h
  · cases h
  · next tail close =>
    split at h
    · cases h
    · cases h
      rw [close, List.length_cons] at inner
      rw [Cursor.length_advance, close, List.length_cons]
      omega
  · cases h

theorem length_readLiteralFrom {start p : Place}
    {escaped : Bool} {read cs : List Char} {text : String} {next : Cursor}
    (h : readLiteralFrom start escaped p read cs = .ok (text, next)) :
    next.rest.length < cs.length := by
  induction cs generalizing escaped p read with
  | nil => cases h
  | cons c cs ih =>
    rw [readLiteralFrom] at h
    split at h
    · cases h; exact Nat.lt_succ_self _
    · exact Nat.lt_succ_of_lt (ih h)

theorem length_readLiteral_le {cur next : Cursor} {text : String}
    (h : readLiteral cur = .ok (text, next)) :
    next.rest.length < cur.rest.length := by
  have := length_readLiteralFrom h
  rw [Cursor.length_advance] at this
  omega

theorem length_readAssignment_le {name : String} {cur next : Cursor}
    (h : readAssignment name cur = .ok next) :
    next.rest.length ≤ cur.rest.length := by
  have blanks := cur.length_skipWhile_le isBlank
  simp only [readAssignment] at h
  split at h
  · cases h
    rw [Cursor.length_advance]
    omega
  · cases h

/-- The alternatives of a rule while they are being read. All lists are in
reverse: the last token or alternative read comes first. -/
structure Body where
  /-- The alternatives that are complete. -/
  finished : List (Alternative String)
  /-- The groups that are open, the innermost first: where each was opened, and
  what stands before it in the sequence around it. -/
  opened : List (Place × List (Token String))
  /-- The sequence in progress. -/
  current : List (Token String)

namespace Body

/-- Nothing read. -/
def empty : Body := ⟨[], [], []⟩

/-- Adds a token to the sequence in progress. -/
def push (b : Body) (t : Token String) : Body :=
  { b with current := t :: b.current }

/-- Opens a group. -/
def openGroup (b : Body) (p : Place) : Body :=
  { b with opened := (p, b.current) :: b.opened, current := [] }

/-- Completes the alternative in progress. One without tokens is dropped; one
whose only token is the empty literal becomes the alternative without tokens. -/
def finish (b : Body) : Body :=
  let finished := match b.current with
    | [] => b.finished
    | [.literal ""] => [] :: b.finished
    | tokens => tokens.reverse :: b.finished
  { b with finished, current := [] }

end Body

/-- What one step of reading alternatives leads to. -/
inductive BodyStep where
  | more (body : Body) (cur : Cursor)
  | done (alternatives : List (Alternative String)) (cur : Cursor)

/-- Reads the closing bracket of a group, which `cur` is at, and its suffix. -/
def readSuffix (cur : Cursor) : Multiplicity × Cursor :=
  let behind := (cur.advance 1).skipWhile isBlank
  match behind.rest.head?.bind Multiplicity.ofSuffix? with
  | some m => (m, behind.advance 1)
  | none => (.one, behind)

/-- Reads one element of the alternatives of `rule`, with the blanks and
comments before it. -/
def readElement (rule : String) (b : Body) (before : Cursor) :
    Except ReadError BodyStep :=
  let cur := before.skipTrivia
  match cur.rest with
  | [] =>
    match b.opened with
    | [] => cur.fail (.missingTerminator rule)
    | (place, _) :: _ => .error ⟨place, .unterminatedGroup⟩
  | c :: _ =>
    if c = '<' then do
      let (name, next) ← readName ((cur.advance 1).skipWhile isSpace)
      return .more (b.push (.reference name)) next
    else if c = '"' then do
      let (pattern, next) ← readLiteral cur
      return .more (b.push (.literal pattern)) next
    else if c = '\x7b' then .ok (.more (b.openGroup cur.place) (cur.advance 1))
    else match b.opened with
      | [] =>
        if c = '|' then .ok (.more b.finish (cur.advance 1))
        else if c = ';' then
          .ok (.done b.finish.finished.reverse (cur.advance 1))
        else cur.fail (.unexpectedCharacter c)
      | (_, outer) :: opened =>
        if c = '\x7d' then
          let (m, next) := readSuffix cur
          .ok (.more { b with
            opened
            current := .group m b.current.reverse :: outer } next)
        else cur.fail (.unexpectedCharacter c)

theorem length_readSuffix {cur : Cursor} (h : cur.rest ≠ []) :
    (readSuffix cur).2.rest.length < cur.rest.length := by
  have blanks := (cur.advance 1).length_skipWhile_le isBlank
  have nonempty := List.length_pos_iff.mpr h
  rw [Cursor.length_advance] at blanks
  simp only [readSuffix]
  split
  · rw [Cursor.length_advance]; omega
  · simp only; omega

/-- What a step leaves to be read. -/
def BodyStep.cursor : BodyStep → Cursor
  | .more _ cur => cur
  | .done _ cur => cur

theorem length_readElement {rule : String} {b : Body} {before : Cursor}
    {step : BodyStep} (h : readElement rule b before = .ok step) :
    step.cursor.rest.length < before.rest.length := by
  have trivia := before.length_skipTrivia_le
  simp only [readElement] at h
  split at h
  · split at h <;> cases h
  · next c tail here =>
    have nonempty : before.skipTrivia.rest ≠ [] := by simp [here]
    have one : (before.skipTrivia.advance 1).rest.length
        < before.rest.length := by
      rw [Cursor.length_advance]
      have := List.length_pos_iff.mpr nonempty
      omega
    split at h
    · cases name :
          readName ((before.skipTrivia.advance 1).skipWhile isSpace) with
      | error e => rw [name] at h; cases h
      | ok found =>
        rw [name] at h
        cases h
        have := length_readName name
        have := (before.skipTrivia.advance 1).length_skipWhile_le isSpace
        simp only [BodyStep.cursor]
        omega
    · split at h
      · cases literal : readLiteral before.skipTrivia with
        | error e => rw [literal] at h; cases h
        | ok found =>
          rw [literal] at h
          cases h
          have := length_readLiteral_le literal
          simp only [BodyStep.cursor]
          omega
      · split at h
        · cases h; exact one
        · split at h
          · split at h
            · cases h; exact one
            · split at h
              · cases h; exact one
              · cases h
          · split at h
            · cases h
              exact Nat.lt_of_lt_of_le (length_readSuffix nonempty) trivia
            · cases h

/-- Reads the alternatives of `rule` up to and including the semicolon. -/
def readBody (rule : String) (b : Body) (cur : Cursor) :
    Except ReadError (List (Alternative String) × Cursor) :=
  match h : readElement rule b cur with
  | .error e => .error e
  | .ok (.done alternatives next) => .ok (alternatives, next)
  | .ok (.more b next) =>
    have := length_readElement h
    readBody rule b next
termination_by cur.rest.length

/-- The marks that may stand before a name. -/
inductive Mark where
  | none
  | start
  | parameter
  deriving Repr, DecidableEq

/-- Reads a mark, if there is one. -/
def readMark (cur : Cursor) : Mark × Cursor :=
  match cur.rest with
  | '!' :: _ => (.start, cur.advance 1)
  | '#' :: _ => (.parameter, cur.advance 1)
  | _ => (.none, cur)

/-- Reads the value of the parameter `key` and the semicolon behind it. -/
def readValue (key : String) (cur : Cursor) :
    Except ReadError (Definition × Cursor) :=
  let cur := cur.skipTrivia
  match cur.rest with
  | '"' :: _ => do
    let (value, next) ← readLiteral cur
    let next := next.skipTrivia
    match next.rest with
    | ';' :: _ => return (.parameter key value, next.advance 1)
    | _ => next.fail (.invalidParameter key)
  | _ => cur.fail (.invalidParameter key)

/-- Reads the alternatives of the rule `name`, which starts at `start`. -/
def readRule (known : List String) (start : Place) (name : String)
    (marked : Bool) (cur : Cursor) : Except ReadError (Definition × Cursor) :=
  if known.contains name then .error ⟨start, .duplicateRule name⟩
  else do
    let (alternatives, next) ← readBody name .empty cur
    if alternatives.isEmpty then .error ⟨start, .emptyRule name⟩
    else return (.rule name marked alternatives, next)

/-- Reads the definition that `cur` is in front of. The rules in `known` are
defined already. -/
def readDefinition (known : List String) (cur : Cursor) :
    Except ReadError (Definition × Cursor) := do
  let (mark, atName) := readMark ((cur.advance 1).skipWhile isSpace)
  let (name, behind) ← readName atName
  let body ← readAssignment name behind
  if mark = .parameter then readValue name body
  else readRule known cur.place name (mark = .start) body

theorem length_readBody {rule : String}
    {b : Body} {cur next : Cursor} {alternatives : List (Alternative String)}
    (h : readBody rule b cur = .ok (alternatives, next)) :
    next.rest.length < cur.rest.length := by
  fun_induction readBody rule b cur with
  | case1 => cases h
  | case2 b cur alternatives' next' step =>
    cases h
    exact length_readElement step
  | case3 b cur b' next' step shorter ih =>
    exact Nat.lt_trans (ih h) (length_readElement step)

theorem length_readMark_le (cur : Cursor) :
    (readMark cur).2.rest.length ≤ cur.rest.length := by
  unfold readMark
  split
  · rw [Cursor.length_advance]; omega
  · rw [Cursor.length_advance]; omega
  · exact Nat.le_refl _

theorem length_readValue {key : String} {cur next : Cursor} {d : Definition}
    (h : readValue key cur = .ok (d, next)) :
    next.rest.length < cur.rest.length := by
  have trivia := cur.length_skipTrivia_le
  simp only [readValue] at h
  split at h
  · cases literal : readLiteral cur.skipTrivia with
    | error e => rw [literal] at h; cases h
    | ok found =>
      rw [literal] at h
      have shorter := length_readLiteral_le literal
      have behind := found.2.length_skipTrivia_le
      simp only [bind, Except.bind] at h
      split at h
      · cases h
        rw [Cursor.length_advance]
        omega
      · cases h
  · cases h

theorem length_readRule {known : List String} {start : Place}
    {name : String} {marked : Bool} {cur next : Cursor} {d : Definition}
    (h : readRule known start name marked cur = .ok (d, next)) :
    next.rest.length < cur.rest.length := by
  unfold readRule at h
  split at h
  · cases h
  · cases body : readBody name .empty cur with
    | error e => rw [body] at h; cases h
    | ok found =>
      rw [body] at h
      simp only [bind, Except.bind] at h
      split at h
      · cases h
      · cases h
        exact length_readBody body

theorem length_readDefinition {known : List String} {cur next : Cursor}
    {d : Definition} (h : readDefinition known cur = .ok (d, next)) :
    next.rest.length < cur.rest.length := by
  have first := cur.length_advance 1
  have spaces := (cur.advance 1).length_skipWhile_le isSpace
  have mark := length_readMark_le ((cur.advance 1).skipWhile isSpace)
  unfold readDefinition at h
  cases name : readName (readMark ((cur.advance 1).skipWhile isSpace)).2 with
  | error e => simp only [name, bind, Except.bind] at h; cases h
  | ok found =>
    have named := length_readName name
    simp only [name, bind, Except.bind] at h
    cases assignment : readAssignment found.1 found.2 with
    | error e => rw [assignment] at h; cases h
    | ok body =>
      have assigned := length_readAssignment_le assignment
      rw [assignment] at h
      simp only at h
      split at h
      · have := length_readValue h; omega
      · have := length_readRule h; omega

/-- All that was read of a text: the definitions up to the end or the first
error. -/
structure Reading where
  definitions : List Definition
  error : Option ReadError
  deriving Repr, DecidableEq

/-- Reads definitions to the end of the text, `known` being the rules before
them. -/
def readAll (known : List String) (cur : Cursor) : Reading :=
  let start := cur.skipTrivia
  match start.rest with
  | [] => ⟨[], none⟩
  | '<' :: _ =>
    match h : readDefinition known start with
    | .error e => ⟨[], some e⟩
    | .ok (d, next) =>
      have :=
        Nat.lt_of_lt_of_le (length_readDefinition h) cur.length_skipTrivia_le
      let after := readAll (d.ruleName?.toList ++ known) next
      { after with definitions := d :: after.definitions }
  | c :: _ => ⟨[], some ⟨start.place, .unexpectedCharacter c⟩⟩
termination_by cur.rest.length

namespace Reading

/-- Reads the text of a grammar. -/
def ofText (text : List Char) : Reading :=
  readAll [] (.ofText text)

/-- The definitions, if the whole text could be read. -/
def result (r : Reading) : Except ReadError (List Definition) :=
  match r.error with
  | none => .ok r.definitions
  | some e => .error e

/-- One record for each rule that was read. -/
def records (r : Reading) : List LogRecord :=
  r.definitions.filterMap fun
    | .rule name _ alternatives =>
      some ⟨.trace, "rule <" ++ name ++ "> with "
        ++ toString alternatives.length ++ " options"⟩
    | .parameter _ _ => none

end Reading

end Lexigram
