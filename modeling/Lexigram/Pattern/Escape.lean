import Lexigram.Pattern.Expr
import Lexigram.Pattern.Flags

/-!
Escapes: what a backslash and the characters behind it stand for, in a pattern
and in a class alike.
-/

namespace Lexigram.Pattern

open Unicode (hexDigit?)

/-- What an escape stands for. -/
inductive Atom where
  /-- A code point; `raw` if it is given by two hexadecimal digits, which can
  also mean a byte. -/
  | point (n : Nat) (raw : Bool)
  /-- A set of characters or, without the flag `u`, of bytes. -/
  | set (s : CharSet)
  | anchor (a : Anchor)
  deriving Repr, DecidableEq

/-- A set closed under changes of case, if the flags ask for it. -/
def Flags.foldCase (f : Flags) (s : CharSet) : CharSet :=
  if f.caseInsensitive then if f.unicode then .folded s
  else .asciiFolded s else s

/-- The set of a class: case variants are added before the complement is
taken. -/
def Flags.closeSet (f : Flags) (negated : Bool) (s : CharSet) : CharSet :=
  if negated then .complement (f.foldCase s) else f.foldCase s

namespace Atom

/-- The expression an atom stands for in a pattern. A raw code point above ASCII
is a byte where bytes are matched. -/
def toExpr (f : Flags) : Atom → Expr
  | point n raw =>
    if !f.unicode && raw && n > 0x7F then .byte (.single n)
    else .char (f.foldCase (.single n))
  | set s => if f.unicode then .char s else .byte s
  | anchor a => .anchor a

end Atom

/-- The number that a list of hexadecimal digits writes. -/
def hexValue (digits : List Nat) : Nat :=
  digits.foldl (fun n d => 16 * n + d) 0

/-- Whether `n` is the code point of a character. -/
def isScalar (n : Nat) : Bool :=
  n < 0xD800 || (0xDFFF < n && n ≤ 0x10FFFF)

/-- Reads exactly `count` hexadecimal digits. -/
def readHexDigits (f : Flags) :
    (count : Nat) → List Char → Except PatternFault (List Nat × List Char)
  | 0, cs => .ok ([], cs)
  | _ + 1, [] => .error .badEscape
  | count + 1, c :: cs =>
    match hexDigit? c with
    | none => .error .badEscape
    | some d => do
      let (digits, rest) ← readHexDigits f count (f.dropGap cs)
      return (d :: digits, rest)

/-- Reads hexadecimal digits up to a closing brace, `cs` being shorter than
`bound`. -/
def readHexBraced (f : Flags) :
    (bound : Nat) → List Char → Except PatternFault (List Nat × List Char)
  | 0, _ => .error .badEscape
  | bound + 1, cs =>
    match f.dropGap cs with
    | [] => .error .badEscape
    | c :: cs =>
      if c = '\x7d' then .ok ([], cs)
      else match hexDigit? c with
        | none => .error .badEscape
        | some d => do
          let (digits, rest) ← readHexBraced f bound cs
          return (d :: digits, rest)

/-- Reads a code point by its digits: `width` of them, or any number between
braces. -/
def readHex (f : Flags) (width : Nat) (cs : List Char) :
    Except PatternFault (Atom × List Char) :=
  match f.dropGap cs with
  | '\x7b' :: cs => do
    let (digits, rest) ← readHexBraced f (cs.length + 1) cs
    if digits.isEmpty then .error .badEscape
    else if isScalar (hexValue digits) then
        return (.point (hexValue digits) false, f.dropGap rest)
    else .error .badCodePoint
  | cs => do
    let (digits, rest) ← readHexDigits f width cs
    if isScalar (hexValue digits) then
      return (.point (hexValue digits) (width = 2), rest)
    else .error .badCodePoint

/-- Reads the characters of a property up to a closing brace, `cs` being shorter
than `bound`. -/
def readBraced (f : Flags) :
    (bound : Nat) → List Char → Except PatternFault (List Char × List Char)
  | 0, _ => .error .badEscape
  | bound + 1, cs =>
    match f.dropGap cs with
    | [] => .error .badEscape
    | c :: cs =>
      if c = '\x7d' then .ok ([], cs)
      else do
        let (name, rest) ← readBraced f bound cs
        return (c :: name, rest)

/-- Splits a text at the first place where `separator` stands. -/
def splitAt? (separator : List Char) :
    List Char → Option (List Char × List Char)
  | [] => if separator.isEmpty then some ([], []) else none
  | c :: cs =>
    if separator.isPrefixOf (c :: cs) then
      some ([], (c :: cs).drop separator.length)
    else (splitAt? separator cs).map fun (before, behind) =>
      (c :: before, behind)

/-- The set of a property and whether its complement is meant: `name`,
`name=value`, `name:value` or `name!=value`. -/
def propertySet? (text : List Char) : Option (Unicode.CodeSet × Bool) :=
  match splitAt? ['!', '='] text with
  | some (name, value) => (Unicode.valued? name value).map (·, true)
  | none =>
    match splitAt? [':'] text <|> splitAt? ['='] text with
    | some (name, value) => (Unicode.valued? name value).map (·, false)
    | none => (Unicode.named? text).map (·, false)

/-- Reads a property behind its `p`, or `P` if `negated`: one letter, or a text
in braces. -/
def readProperty (f : Flags) (negated : Bool) (cs : List Char) :
    Except PatternFault (Atom × List Char) := do
  let (text, rest) ← match f.dropGap cs with
    | [] => .error .badEscape
    | '\\' :: _ => .error .unknownProperty
    | '\x7b' :: cs => readBraced f (cs.length + 1) cs
    | c :: cs => .ok ([c], f.dropGap cs)
  match propertySet? text with
  | none => .error .unknownProperty
  | some (set, inverted) =>
    if f.unicode then
      return (.set (f.closeSet (negated != inverted) (.table set)), rest)
    else .error .notBytes

/-- The class that a letter names: digits, white space, characters of words or,
in upper case, all else. -/
def letterClass? (f : Flags) (c : Char) : Option CharSet :=
  let pick (all ascii : CharSet) := if f.unicode then all else ascii
  match c with
  | 'd' => some (pick .digit .asciiDigit)
  | 's' => some (pick .space .asciiSpace)
  | 'w' => some (pick .word .asciiWord)
  | 'D' => some (.complement (pick .digit .asciiDigit))
  | 'S' => some (.complement (pick .space .asciiSpace))
  | 'W' => some (.complement (pick .word .asciiWord))
  | _ => none

/-- The control character that a letter names. -/
def control? : Char → Option Nat
  | 'a' => some 7
  | 't' => some 9
  | 'n' => some 10
  | 'v' => some 11
  | 'f' => some 12
  | 'r' => some 13
  | _ => none

/-- The anchor that a character names. -/
def anchor? (f : Flags) : Char → Option Anchor
  | 'A' => some .textStart
  | 'z' => some .textEnd
  | 'b' => some (.wordBoundary !f.unicode)
  | 'B' => some (.noWordBoundary !f.unicode)
  | '<' => some (.wordStart !f.unicode)
  | '>' => some (.wordEnd !f.unicode)
  | _ => none

/-- The letters of the names of boundaries. -/
def isBoundaryLetter (c : Char) : Bool :=
  ('A' ≤ c && c ≤ 'Z') || ('a' ≤ c && c ≤ 'z') || c == '-'

/-- Reads the name of a boundary, `cs` being shorter than `bound`. -/
def readBoundaryName (f : Flags) :
    (bound : Nat) → List Char → List Char × List Char
  | 0, cs => ([], cs)
  | bound + 1, cs =>
    match cs with
    | [] => ([], [])
    | c :: rest =>
      if isBoundaryLetter c then
        let (name, rest) := readBoundaryName f bound (f.dropGap rest)
        (c :: name, rest)
      else ([], c :: rest)

/-- The boundary with a name. -/
def boundary? (f : Flags) (name : List Char) : Option Anchor :=
  match String.ofList name with
  | "start" => some (.wordStart !f.unicode)
  | "end" => some (.wordEnd !f.unicode)
  | "start-half" => some (.wordStartHalf !f.unicode)
  | "end-half" => some (.wordEndHalf !f.unicode)
  | _ => none

/-- Reads what stands behind the letter of a word boundary: a name in braces, or
nothing. A brace that no name follows is left for the count of a repetition. -/
def readBoundary (f : Flags) (cs : List Char) :
    Except PatternFault (Anchor × List Char) :=
  let plain : Anchor := .wordBoundary !f.unicode
  match cs with
  | '\x7b' :: inside =>
    match f.dropGap inside with
    | [] => .error .badBoundary
    | c :: rest =>
      if isBoundaryLetter c then
        let (name, behind) := readBoundaryName f (rest.length + 2) (c :: rest)
        match behind, boundary? f name with
        | '\x7d' :: behind, some a => .ok (a, behind)
        | _, _ => .error .badBoundary
      else .ok (plain, cs)
  | _ => .ok (plain, cs)

/-- Whether a character stands for itself behind a backslash: all of ASCII but
letters, digits and the angle brackets. -/
def isEscapable (c : Char) : Bool :=
  c.toNat < 128 && !Unicode.isAsciiAlphanumeric c.toNat && c != '<' && c != '>'

/-- Reads what follows a backslash. -/
def readEscape (f : Flags) : List Char → Except PatternFault (Atom × List Char)
  | [] => .error .badEscape
  | c :: cs =>
    if '0' ≤ c ∧ c ≤ '9' then .error .backReference
    else if c = 'x' then readHex f 2 cs
    else if c = 'u' then readHex f 4 cs
    else if c = 'U' then readHex f 8 cs
    else if c = 'p' then readProperty f false cs
    else if c = 'P' then readProperty f true cs
    else if c = 'b' then do
      let (a, rest) ← readBoundary f cs
      return (.anchor a, rest)
    else match letterClass? f c, control? c, anchor? f c with
      | some s, _, _ => .ok (.set s, cs)
      | _, some n, _ => .ok (.point n false, cs)
      | _, _, some a => .ok (.anchor a, cs)
      | none, none, none =>
        if isEscapable c then .ok (.point c.toNat false, cs)
        else .error .badEscape

end Lexigram.Pattern
