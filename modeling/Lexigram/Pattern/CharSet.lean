import Lexigram.Unicode.Folding
import Lexigram.Unicode.Property
import Lexigram.Text.Blank

/-!
Sets of characters or of bytes, as they are written in a class: intervals, named
sets and the operations on sets. A member is a code point or the value of a
byte; `CharSet.contains` decides membership.
-/

namespace Lexigram.Pattern

/-- A set of numbers, code points or bytes. -/
inductive CharSet where
  | nothing
  /-- The numbers from `first` to `last`. -/
  | interval (first last : Nat)
  /-- The points of a table. -/
  | table (set : Unicode.CodeSet)
  /-- The decimal digits of all scripts. -/
  | digit
  /-- White space. -/
  | space
  /-- The characters of words. -/
  | word
  | union (a b : CharSet)
  | intersection (a b : CharSet)
  | difference (a b : CharSet)
  | symmetricDifference (a b : CharSet)
  | complement (a : CharSet)
  /-- The points equal to a member of `a` up to case. -/
  | folded (a : CharSet)
  /-- The points equal to a member of `a` up to the case of ASCII letters. -/
  | asciiFolded (a : CharSet)
  deriving Repr, DecidableEq

namespace CharSet

/-- Membership. -/
def contains : CharSet → Nat → Bool
  | nothing, _ => false
  | interval first last, n => first ≤ n && n ≤ last
  | table set, n => set.contains n
  | digit, n => Unicode.isDigit n
  | space, n => Text.isBlank (Char.ofNat n)
  | word, n => Unicode.isWord n
  | union a b, n => a.contains n || b.contains n
  | intersection a b, n => a.contains n && b.contains n
  | difference a b, n => a.contains n && !b.contains n
  | symmetricDifference a b, n => a.contains n != b.contains n
  | complement a, n => !a.contains n
  | folded a, n => (Unicode.caseVariants n).any a.contains
  | asciiFolded a, n => (Unicode.asciiVariants n).any a.contains

/-- The set of one number. -/
def single (n : Nat) : CharSet := interval n n

/-- The union of intervals. -/
def ofIntervals (intervals : List (Nat × Nat)) : CharSet :=
  intervals.foldr (fun (first, last) set => union (interval first last) set)
    nothing

/-- The ASCII digits. -/
def asciiDigit : CharSet := interval 48 57

/-- The ASCII white space. -/
def asciiSpace : CharSet := ofIntervals [(9, 13), (32, 32)]

/-- The ASCII characters of words. -/
def asciiWord : CharSet := ofIntervals [(48, 57), (65, 90), (95, 95), (97, 122)]

/-- The named classes of ASCII characters. -/
def asciiClasses : List (String × List (Nat × Nat)) := [
  ("alnum", [(48, 57), (65, 90), (97, 122)]),
  ("alpha", [(65, 90), (97, 122)]),
  ("ascii", [(0, 127)]),
  ("blank", [(9, 9), (32, 32)]),
  ("cntrl", [(0, 31), (127, 127)]),
  ("digit", [(48, 57)]),
  ("graph", [(33, 126)]),
  ("lower", [(97, 122)]),
  ("print", [(32, 126)]),
  ("punct", [(33, 47), (58, 64), (91, 96), (123, 126)]),
  ("space", [(9, 13), (32, 32)]),
  ("upper", [(65, 90)]),
  ("word", [(48, 57), (65, 90), (95, 95), (97, 122)]),
  ("xdigit", [(48, 57), (65, 70), (97, 102)])]

/-- The class of ASCII characters with a name. -/
def asciiNamed? (name : String) : Option CharSet :=
  (asciiClasses.lookup name).map ofIntervals

@[simp] theorem contains_single (n m : Nat) :
    (single n).contains m = decide (n = m) := by
  simp only [single, contains]
  by_cases h : n = m
  · simp [h]
  · simp only [h, decide_false, Bool.and_eq_false_iff, decide_eq_false_iff_not]
    omega

end CharSet

end Lexigram.Pattern
