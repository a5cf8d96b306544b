import Lexigram.Pattern.Fault
import Lexigram.Text.Blank

/-!
Flags, which change what the rest of a group means, and the reading of a list of
them.
-/

namespace Lexigram.Pattern

/-- The flags in force. -/
structure Flags where
  /-- `i`: case does not count. -/
  caseInsensitive : Bool
  /-- `m`: the anchors for start and end hold at every line. -/
  multiLine : Bool
  /-- `s`: the dot also matches a newline. -/
  dotAll : Bool
  /-- `U`: a repetition is lazy, and greedy with a question mark. -/
  swapGreed : Bool
  /-- `u`: characters, not bytes. -/
  unicode : Bool
  /-- `R`: a return ends a line too. -/
  crlf : Bool
  /-- `x`: blanks and comments do not count. -/
  verbose : Bool
  deriving Repr, DecidableEq

namespace Flags

/-- The flags a pattern starts with. -/
def initial : Flags := ⟨false, false, false, false, true, false, false⟩

/-- Sets the flag with a letter. -/
def set? (f : Flags) (value : Bool) : Char → Option Flags
  | 'i' => some { f with caseInsensitive := value }
  | 'm' => some { f with multiLine := value }
  | 's' => some { f with dotAll := value }
  | 'U' => some { f with swapGreed := value }
  | 'u' => some { f with unicode := value }
  | 'R' => some { f with crlf := value }
  | 'x' => some { f with verbose := value }
  | _ => none

/-- What is left behind blanks and comments, where these do not count. -/
def dropGap (f : Flags) (cs : List Char) : List Char :=
  if f.verbose then (Text.spanTrivia false cs).2 else cs

/-- Reads letters up to a colon or a closing bracket, which stays. Letters
behind the hyphen clear their flags. No letter stands twice and there is one
hyphen at most, not at the end. `seen` has the letters before, `value` says
whether they set flags. -/
def read (f : Flags) (seen : List Char) (value : Bool) :
    List Char → Except PatternFault (Flags × List Char)
  | [] => .error .badFlags
  | c :: cs =>
    if c = ':' ∨ c = ')' then
      if seen.head? = some '-' then .error .badFlags else .ok (f, c :: cs)
    else if seen.contains c then .error .badFlags
    else if c = '-' then read f ('-' :: seen) false cs
    else match f.set? value c with
      | some f => read f (c :: seen) value cs
      | none => .error .badFlags

end Flags

end Lexigram.Pattern
