import Lexigram.Pattern.Escape

/-!
Classes in brackets: intervals, escapes, nested classes and the operators on
sets. The reader keeps the classes and operators that are open on a stack.
Operators associate to the left and bind less tightly than standing side by
side.
-/

namespace Lexigram.Pattern

/-- An operator between two sets. -/
inductive SetOperator where
  | intersection
  | difference
  | symmetricDifference
  deriving Repr, DecidableEq

namespace SetOperator

/-- The operator written by a character twice. -/
def ofChar? : Char → Option SetOperator
  | '&' => some intersection
  | '-' => some difference
  | '~' => some symmetricDifference
  | _ => none

/-- The set of the operation. Case variants are added to the operands first. -/
def apply (f : Flags) (op : SetOperator) (a b : CharSet) : CharSet :=
  match op with
  | intersection => .intersection (f.foldCase a) (f.foldCase b)
  | difference => .difference (f.foldCase a) (f.foldCase b)
  | symmetricDifference => .symmetricDifference (f.foldCase a) (f.foldCase b)

end SetOperator

/-- What is open while a class is being read. -/
inductive ClassFrame where
  /-- A class, with what stands before it in the class around it. -/
  | opened (before : CharSet) (negated : Bool)
  /-- An operator with its left operand. -/
  | operator (op : SetOperator) (left : CharSet)
  deriving Repr, DecidableEq

/-- Applies the operator on top of the stack, if there is one, to the operand
that is complete. -/
def applyPending (f : Flags) (operand : CharSet) :
    List ClassFrame → CharSet × List ClassFrame
  | .operator op left :: stack => (op.apply f left operand, stack)
  | stack => (operand, stack)

/-- Reads the hyphens at the start of a class, `cs` being shorter than
`bound`. -/
def readHyphens (f : Flags) : (bound : Nat) → List Char → Bool × List Char
  | bound + 1, '-' :: cs => (true, (readHyphens f bound (f.dropGap cs)).2)
  | _, cs => (false, cs)

/-- Reads the start of a class behind its bracket: a circumflex, hyphens, and a
closing bracket that belongs to the class because nothing else does yet. -/
def readClassStart (f : Flags) (cs : List Char) : Bool × CharSet × List Char :=
  let cs := f.dropGap cs
  let (negated, cs) := match cs with
    | '^' :: cs => (true, f.dropGap cs)
    | _ => (false, cs)
  let (hyphens, cs) := readHyphens f (cs.length + 1) cs
  if hyphens then (negated, .single '-'.toNat, cs)
  else match cs with
    | ']' :: cs => (negated, .single ']'.toNat, f.dropGap cs)
    | _ => (negated, .nothing, cs)

/-- Reads a named class of ASCII characters, `:name:]` or `:^name:]`, behind its
bracket. -/
def readNamedClass? (f : Flags) (cs : List Char) :
    Option (CharSet × List Char) :=
  match cs with
  | ':' :: cs =>
    let (negated, cs) := match cs with
      | '^' :: cs => (true, cs)
      | _ => (false, cs)
    match cs.dropWhile (· != ':') with
    | ':' :: ']' :: rest =>
      (CharSet.asciiNamed? (String.ofList (cs.takeWhile (· != ':')))).map
        fun s => (f.closeSet negated s, rest)
    | _ => none
  | _ => none

/-- Reads an escape or a character of a class. -/
def readClassAtom (f : Flags) (c : Char) (cs : List Char) :
    Except PatternFault (Atom × List Char) :=
  if c = '\\' then readEscape f cs else .ok (.point c.toNat false, cs)

/-- The number that a code point stands for in a class. Where bytes are matched
it has to be one. -/
def classPoint (f : Flags) (n : Nat) (raw : Bool) : Except PatternFault Nat :=
  if f.unicode || raw || n ≤ 0x7F then .ok n else .error .notBytes

/-- The character behind a hyphen, blanks and the mark of a comment aside where
these do not count. -/
def peekBehind (f : Flags) (cs : List Char) : Option Char :=
  if f.verbose then
    match cs.dropWhile Text.isBlank with
    | '#' :: rest => (rest.dropWhile Text.isBlank).head?
    | rest => rest.head?
  else cs.head?

/-- Reads an interval or a single member of a class. A hyphen makes an interval
unless a bracket or another hyphen follows. -/
def readClassItem (f : Flags) (c : Char) (cs : List Char) :
    Except PatternFault (CharSet × List Char) := do
  let (first, rest) ← readClassAtom f c cs
  let lone : Except PatternFault (CharSet × List Char) := match first with
    | .point n raw => do return (.single (← classPoint f n raw), f.dropGap rest)
    | .set s => .ok (s, f.dropGap rest)
    | .anchor _ => .error .badClassItem
  match f.dropGap rest with
  | [] => .error .unclosedClass
  | '-' :: behind =>
    if peekBehind f behind = some ']' ∨ peekBehind f behind = some '-' then lone
    else match f.dropGap behind with
      | [] => .error .unclosedClass
      | d :: ds => do
        let (last, rest) ← readClassAtom f d ds
        match first, last with
        | .point n rawN, .point m rawM =>
          if n ≤ m then
            return (.interval (← classPoint f n rawN) (← classPoint f m rawM),
              rest)
          else .error .badRange
        | _, _ => .error .badRange
  | _ => lone

/-- Reads a class. `stack` has what is open and `set` the members read since;
`skip` is how many of the characters have been read already. -/
def readClassFrom (f : Flags) (stack : List ClassFrame) (set : CharSet)
    (skip : Nat) :
    List Char → Except PatternFault (CharSet × List Char)
  | [] => .error .unclosedClass
  | c :: cs =>
    let through (rest : List Char) : Nat := cs.length - rest.length
    match skip with
    | skip + 1 => readClassFrom f stack set skip cs
    | 0 =>
      let gap := f.dropGap (c :: cs)
      if gap.length ≤ cs.length then readClassFrom f stack set (through gap) cs
      else if c = '[' then
        match if stack.isEmpty then none else readNamedClass? f cs with
        | some (named, rest) =>
          readClassFrom f stack (.union set named) (through rest) cs
        | none =>
          let (negated, start, rest) := readClassStart f cs
          readClassFrom f (.opened set negated :: stack) start (through rest) cs
      else if c = ']' then
        match applyPending f set stack with
        | (members, .opened before negated :: stack) =>
          let closed := f.closeSet negated members
          if stack.isEmpty then .ok (closed, cs)
          else readClassFrom f stack (.union before closed) 0 cs
        | _ => .error .unclosedClass
      else match SetOperator.ofChar? c, cs.head? == some c with
        | some op, true =>
          let (left, stack) := applyPending f set stack
          readClassFrom f (.operator op left :: stack) .nothing 1 cs
        | _, _ =>
          match readClassItem f c cs with
          | .error e => .error e
          | .ok (item, rest) =>
            readClassFrom f stack (.union set item) (through rest) cs

/-- Reads a class from its opening bracket on. -/
def readClass (f : Flags) (cs : List Char) :
    Except PatternFault (CharSet × List Char) :=
  readClassFrom f [] .nothing 0 cs

end Lexigram.Pattern
