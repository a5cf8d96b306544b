import Lexigram.Pattern.Expr
import Lexigram.Text.Utf8

/-!
When anchors hold: `before` is what stands in front of a place, in reverse, and
`after` what stands behind it. A byte that belongs to no character is not part
of a word.
-/

namespace Lexigram.Pattern

open Text

/-- Whether the byte or character in front belongs to a word. -/
def wordBefore (ascii : Bool) (before : List UInt8) : Bool :=
  if ascii then before.head?.any fun b => CharSet.asciiWord.contains b.toNat
  else (charAtBack? before).any fun c => Unicode.isWord c.toNat

/-- Whether the byte or character behind belongs to a word. -/
def wordAfter (ascii : Bool) (after : List UInt8) : Bool :=
  if ascii then after.head?.any fun b => CharSet.asciiWord.contains b.toNat
  else (charAtFront? after).any fun c => Unicode.isWord c.1.toNat

/-- Whether characters can be read next to a place. Nothing at all can be read
at the ends of the text, and that counts as read. -/
def readable (ascii : Bool) (before after : List UInt8) : Bool :=
  ascii || ((before.isEmpty || (charAtBack? before).isSome)
    && (after.isEmpty || (charAtFront? after).isSome))

namespace Anchor

/-- Whether the anchor holds. An anchor that says that a word does not go on
needs characters that can be read. -/
def holds (a : Anchor) (before after : List UInt8) : Bool :=
  match a with
  | textStart => before.isEmpty
  | textEnd => after.isEmpty
  | lineStart => before.isEmpty || before.head? == some 10
  | lineEnd => after.isEmpty || after.head? == some 10
  | crlfLineStart =>
    before.isEmpty || before.head? == some 10
      || (before.head? == some 13 && after.head? != some 10)
  | crlfLineEnd =>
    after.isEmpty || after.head? == some 13
      || (after.head? == some 10 && before.head? != some 13)
  | wordBoundary ascii => wordBefore ascii before != wordAfter ascii after
  | noWordBoundary ascii =>
    readable ascii before after
      && wordBefore ascii before == wordAfter ascii after
  | wordStart ascii => !wordBefore ascii before && wordAfter ascii after
  | wordEnd ascii => wordBefore ascii before && !wordAfter ascii after
  | wordStartHalf ascii => readable ascii before [] && !wordBefore ascii before
  | wordEndHalf ascii => readable ascii [] after && !wordAfter ascii after

end Anchor

end Lexigram.Pattern
