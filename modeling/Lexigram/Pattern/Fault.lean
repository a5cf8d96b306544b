/-!
The faults that a pattern can have.
-/

namespace Lexigram.Pattern

/-- Why a text is no pattern. -/
inductive PatternFault where
  | unclosedGroup
  | unopenedGroup
  | lookAround
  | badGroupName
  | duplicateGroupName
  | badFlags
  | missingOperand
  | badCount
  | unclosedClass
  | badClassItem
  | badRange
  | badEscape
  | badCodePoint
  | backReference
  | badBoundary
  | unknownProperty
  /-- A set of characters where bytes are asked for. -/
  | notBytes
  deriving Repr, DecidableEq

end Lexigram.Pattern
