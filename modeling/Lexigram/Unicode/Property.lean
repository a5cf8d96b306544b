import Lexigram.Unicode.Category
import Lexigram.Unicode.Derived
import Lexigram.Unicode.Script

/-!
Sets of code points by property: the general categories and their groups, the
scripts, and a few binary properties. `named?` finds a set by any of its names,
spelled loosely; the predicates at the end are the ones the rest of the library
asks for directly, and answer for ASCII without a table.
-/

namespace Lexigram.Unicode

/-- A set of code points as a union of tables. -/
abbrev CodeSet := List Ranges

/-- Whether some table of the union holds `n`. -/
def CodeSet.contains (s : CodeSet) (n : Nat) : Bool :=
  s.any (·.contains n)

namespace CodeSet

open Category

def casedLetter : CodeSet := [uppercaseLetter, lowercaseLetter, titlecaseLetter]
def letter : CodeSet := casedLetter ++ [modifierLetter, otherLetter]
def mark : CodeSet := [nonspacingMark, spacingMark, enclosingMark]
def number : CodeSet := [decimalNumber, letterNumber, otherNumber]
def punctuation : CodeSet :=
  [connectorPunctuation, dashPunctuation, openPunctuation, closePunctuation,
    initialPunctuation, finalPunctuation, otherPunctuation]
def symbols : CodeSet :=
  [mathSymbol, currencySymbol, modifierSymbol, otherSymbol]
def separator : CodeSet := [spaceSeparator, lineSeparator, paragraphSeparator]
def other : CodeSet := [control, format, surrogate, privateUse, unassigned]

def anyPoint : CodeSet := [⟨#[(0, 0x10FFFF)]⟩]
def assigned : CodeSet :=
  letter ++ mark ++ number ++ punctuation ++ symbols ++ separator
    ++ [control, format, surrogate, privateUse]
def ascii : CodeSet := [⟨#[(0, 0x7F)]⟩]
def alphabetic : CodeSet := letter ++ [letterNumber, otherAlphabetic]
def lowercase : CodeSet := [lowercaseLetter, otherLowercase]
def uppercase : CodeSet := [uppercaseLetter, otherUppercase]
def cased : CodeSet := lowercase ++ uppercase ++ [titlecaseLetter]
def graphemeExtend : CodeSet :=
  [nonspacingMark, enclosingMark, otherGraphemeExtend]
def whiteSpace : CodeSet :=
  [.ofHex ["9-D 20 85 A0 1680 2000-200A 2028-2029 202F 205F 3000"]]
def joinControl : CodeSet := [.ofHex ["200C-200D"]]
def asciiHexDigit : CodeSet := [.ofHex ["30-39 41-46 61-66"]]
def hexDigit : CodeSet :=
  [.ofHex ["30-39 41-46 61-66 FF10-FF19 FF21-FF26 FF41-FF46"]]

end CodeSet

open Category CodeSet in
/-- The general categories and their groups, each under all its names. The
surrogates have no name: no text holds them. -/
def categoryNames : List (List String × CodeSet) := [
  (["lu", "uppercaseletter"], [uppercaseLetter]),
  (["ll", "lowercaseletter"], [lowercaseLetter]),
  (["lt", "titlecaseletter"], [titlecaseLetter]),
  (["lc", "casedletter"], casedLetter),
  (["lm", "modifierletter"], [modifierLetter]),
  (["lo", "otherletter"], [otherLetter]),
  (["l", "letter"], letter),
  (["mn", "nonspacingmark"], [nonspacingMark]),
  (["mc", "spacingmark"], [spacingMark]),
  (["me", "enclosingmark"], [enclosingMark]),
  (["m", "mark", "combiningmark"], mark),
  (["nd", "decimalnumber", "digit"], [decimalNumber]),
  (["nl", "letternumber"], [letterNumber]),
  (["no", "othernumber"], [otherNumber]),
  (["n", "number"], number),
  (["pc", "connectorpunctuation"], [connectorPunctuation]),
  (["pd", "dashpunctuation"], [dashPunctuation]),
  (["ps", "openpunctuation"], [openPunctuation]),
  (["pe", "closepunctuation"], [closePunctuation]),
  (["pi", "initialpunctuation"], [initialPunctuation]),
  (["pf", "finalpunctuation"], [finalPunctuation]),
  (["po", "otherpunctuation"], [otherPunctuation]),
  (["p", "punctuation", "punct"], punctuation),
  (["sm", "mathsymbol"], [mathSymbol]),
  (["sc", "currencysymbol"], [currencySymbol]),
  (["sk", "modifiersymbol"], [modifierSymbol]),
  (["so", "othersymbol"], [otherSymbol]),
  (["s", "symbol"], symbols),
  (["zs", "spaceseparator"], [spaceSeparator]),
  (["zl", "lineseparator"], [lineSeparator]),
  (["zp", "paragraphseparator"], [paragraphSeparator]),
  (["z", "separator"], separator),
  (["cc", "control", "cntrl"], [control]),
  (["cf", "format"], [format]),
  (["co", "privateuse"], [privateUse]),
  (["cn", "unassigned"], [unassigned]),
  (["c", "other"], other),
  (["any"], anyPoint),
  (["assigned"], assigned),
  (["ascii"], ascii)]

open CodeSet in
/-- The binary properties, each under all its names. -/
def binaryNames : List (List String × CodeSet) := [
  (["alpha", "alphabetic"], alphabetic),
  (["lower", "lowercase"], lowercase),
  (["upper", "uppercase"], uppercase),
  (["cased"], cased),
  (["grext", "graphemeextend"], graphemeExtend),
  (["wspace", "whitespace", "space"], whiteSpace),
  (["joinc", "joincontrol"], joinControl),
  (["ahex", "asciihexdigit"], asciiHexDigit),
  (["hex", "hexdigit"], hexDigit)]

/-- A name in the spelling of the tables: only its ASCII characters count,
letters in lower case, without blanks, underscores, hyphens and a leading
`is`. -/
def looseName (name : List Char) : String :=
  let lower := name.map Char.toLower
  let stem := match lower with
    | 'i' :: 's' :: rest => rest
    | _ => lower
  let kept := stem.filter fun c => c.toNat < 128 ∧ c ≠ ' ' ∧ c ≠ '_' ∧ c ≠ '-'
  match lower, kept with
  | 'i' :: 's' :: _, ['c'] => "isc"
  | _, _ => String.ofList kept

/-- Looks a name of the tables up. -/
def lookUp (table : List (List String × CodeSet)) (name : String) :
    Option CodeSet :=
  (table.find? fun entry => entry.1.contains name).map (·.2)

/-- The code points of a script, by its long or its short name. -/
def scriptNamed? (name : String) : Option CodeSet :=
  (scripts.find? fun s =>
    looseName s.name.toList = name ∨ looseName s.short.toList = name
      ∨ (s.short = "Copt" ∧ name = "qaac")
      ∨ (s.short = "Zinh" ∧ name = "qaai")).map
    fun s => [.ofHex s.points]

/-- The set with a loosely spelled name: a binary property, a category or a
script. -/
def named? (name : List Char) : Option CodeSet :=
  let loose := looseName name
  lookUp binaryNames loose <|> lookUp categoryNames loose <|> scriptNamed? loose

/-- The set of the code points whose property `property` has the value `value`:
the property is the general category or the script. -/
def valued? (property value : List Char) : Option CodeSet :=
  let name := looseName property
  if name = "gc" ∨ name = "generalcategory" then
    lookUp categoryNames (looseName value)
  else if name = "sc" ∨ name = "script" then scriptNamed? (looseName value)
  else none

/-- An ASCII letter or digit. -/
def isAsciiAlphanumeric (n : Nat) : Bool :=
  (48 ≤ n && n ≤ 57) || (65 ≤ n && n ≤ 90) || (97 ≤ n && n ≤ 122)

/-- A decimal digit of any script. -/
def isDigit (n : Nat) : Bool :=
  if n < 128 then 48 ≤ n && n ≤ 57 else Category.decimalNumber.contains n

/-- An alphabetic character. -/
def isAlphabetic (n : Nat) : Bool :=
  if n < 128 then (65 ≤ n && n ≤ 90) || (97 ≤ n && n ≤ 122)
  else CodeSet.alphabetic.contains n

/-- A character of a word: alphabetic, a mark, a decimal digit, a connector or a
join control. -/
def isWord (n : Nat) : Bool :=
  if n < 128 then isAsciiAlphanumeric n || n == 95
  else (CodeSet.alphabetic ++ CodeSet.mark ++ [Category.decimalNumber,
    Category.connectorPunctuation] ++ CodeSet.joinControl).contains n

/-- A character that extends the one before it. -/
def isGraphemeExtend (n : Nat) : Bool :=
  if n < 128 then false else CodeSet.graphemeExtend.contains n

/-- A character that stands for itself in a quoted text: no control, format,
private or unassigned character and, the space apart, no separator. -/
def isPrintable (n : Nat) : Bool :=
  if n < 128 then 32 ≤ n && n < 127
  else !(CodeSet.other ++ CodeSet.separator).contains n

/-- A number or letter, in the sense of names. -/
def isAlphanumeric (n : Nat) : Bool :=
  if n < 128 then isAsciiAlphanumeric n
  else (CodeSet.alphabetic ++ CodeSet.number).contains n

end Lexigram.Unicode
