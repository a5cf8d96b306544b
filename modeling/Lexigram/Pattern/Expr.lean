import Lexigram.Pattern.CharSet

/-!
Patterns as trees. A tree says what a pattern matches once the flags that were
in force are accounted for: its sets hold the case variants, and its anchors are
those the flags ask for.
-/

namespace Lexigram.Pattern

/-- A condition on the place between two bytes. The conditions on words come for
all scripts and for ASCII alone. -/
inductive Anchor where
  | textStart
  | textEnd
  | lineStart
  | lineEnd
  /-- A start of line where a return ends a line too, alone or before a
  newline. -/
  | crlfLineStart
  /-- An end of line where a return ends a line too, alone or before a
  newline. -/
  | crlfLineEnd
  | wordBoundary (ascii : Bool)
  | noWordBoundary (ascii : Bool)
  | wordStart (ascii : Bool)
  | wordEnd (ascii : Bool)
  /-- No character of a word before. -/
  | wordStartHalf (ascii : Bool)
  /-- No character of a word after. -/
  | wordEndHalf (ascii : Bool)
  deriving Repr, DecidableEq

/-- A pattern. -/
inductive Expr where
  /-- The empty text. -/
  | empty
  /-- One character, in UTF-8, out of a set. -/
  | char (set : CharSet)
  /-- One byte out of a set. -/
  | byte (set : CharSet)
  | anchor (a : Anchor)
  | sequence (first second : Expr)
  /-- The first alternative that leads to a match. -/
  | choice (first second : Expr)
  /-- At least `least` and at most `most` times, as often as possible if
  `greedy`, else as rarely. -/
  | repetition (body : Expr) (least : Nat) (most : Option Nat) (greedy : Bool)
  /-- A group; one with an index records what it matches. -/
  | group (index : Option Nat) (body : Expr)
  deriving Repr, DecidableEq

namespace Expr

/-- Expressions one after the other. -/
def ofSequence : List Expr → Expr
  | [] => empty
  | [e] => e
  | e :: es => sequence e (ofSequence es)

/-- How many groups record what they match. What is repeated no times at all is
left out of the pattern. -/
def recorded : Expr → Nat
  | empty | char _ | byte _ | anchor _ => 0
  | sequence a b => a.recorded + b.recorded
  | choice a b => a.recorded + b.recorded
  | repetition body _ most _ => if most = some 0 then 0 else body.recorded
  | group none body => body.recorded
  | group (some _) body => body.recorded + 1

end Expr

end Lexigram.Pattern
