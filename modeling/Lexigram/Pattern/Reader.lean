import Lexigram.Pattern.Class

/-!
Reading patterns. The reader goes through the pattern from left to right and
keeps the sequence in progress, the alternatives before it and the groups that
are open; flags hold from where they are set to the end of the group around
them. `Expr.ofText?` reads a whole pattern.
-/

namespace Lexigram.Pattern

/-- What has been read of a group. All lists are in reverse: the last one read
comes first. -/
structure Branches where
  /-- The alternatives that are complete. -/
  finished : List Expr
  /-- The sequence in progress; where flags were set it has no expression. -/
  items : List (Option Expr)
  deriving Repr, DecidableEq

namespace Branches

/-- Nothing read. -/
def empty : Branches := ⟨[], []⟩

/-- Adds an expression to the sequence in progress. -/
def push (b : Branches) (e : Expr) : Branches :=
  { b with items := some e :: b.items }

/-- The sequence in progress. -/
def sequence (b : Branches) : Expr :=
  .ofSequence (b.items.reverse.filterMap id)

/-- Completes the alternative in progress. -/
def next (b : Branches) : Branches :=
  ⟨b.sequence :: b.finished, []⟩

/-- The whole group. -/
def close (b : Branches) : Expr :=
  b.finished.foldl (fun behind e => .choice e behind) b.sequence

end Branches

/-- A group that is open: its index if it records its match, and what was in
force and in progress around it. -/
structure OpenGroup where
  index : Option Nat
  flags : Flags
  around : Branches
  deriving Repr, DecidableEq

/-- The state of the reader. -/
structure Progress where
  flags : Flags
  branches : Branches
  /-- The open groups, the innermost first. -/
  opened : List OpenGroup
  /-- How many groups that record their match have been opened. -/
  groups : Nat
  /-- The names of groups. -/
  names : List (List Char)
  deriving Repr, DecidableEq

namespace Progress

/-- In front of a pattern. -/
def initial : Progress := ⟨.initial, .empty, [], 0, []⟩

/-- Adds an expression to the sequence in progress. -/
def push (p : Progress) (e : Expr) : Progress :=
  { p with branches := p.branches.push e }

/-- Opens a group. -/
def openGroup (p : Progress) (index : Option Nat) (flags : Flags) : Progress :=
  { p with
    flags
    branches := .empty
    opened := ⟨index, p.flags, p.branches⟩ :: p.opened }

/-- Opens the next group that records its match. -/
def openCapture (p : Progress) : Progress :=
  { p.openGroup (some (p.groups + 1)) p.flags with groups := p.groups + 1 }

/-- Closes the innermost group. -/
def closeGroup (p : Progress) : Except PatternFault Progress :=
  match p.opened with
  | [] => .error .unopenedGroup
  | g :: opened =>
    .ok { p with flags := g.flags, opened,
                 branches := g.around.push (.group g.index p.branches.close) }

/-- Repeats the expression that was read last. -/
def repeatLast (p : Progress) (least : Nat) (most : Option Nat) (lazy : Bool) :
    Except PatternFault Progress :=
  match p.branches.items with
  | some e :: items =>
    .ok { p with
      branches := { p.branches with
        items := some (.repetition e least most (lazy == p.flags.swapGreed))
          :: items } }
  | _ => .error .missingOperand

/-- The expression, if no group is open. -/
def finish (p : Progress) : Except PatternFault Expr :=
  if p.opened.isEmpty then .ok p.branches.close else .error .unclosedGroup

end Progress

/-- Whether a character may stand in the name of a group, or at its start. -/
def isGroupNameChar (first : Bool) (c : Char) : Bool :=
  c == '_' ||
    if first then Unicode.isAlphabetic c.toNat
    else c == '.' || c == '[' || c == ']' || Unicode.isAlphanumeric c.toNat

/-- Reads the name of a group up to and including the bracket that closes it. -/
def readGroupName (cs : List Char) :
    Except PatternFault (List Char × List Char) :=
  let name := cs.takeWhile (· != '>')
  match name, cs.dropWhile (· != '>') with
  | first :: others, '>' :: rest =>
    if isGroupNameChar true first && others.all (isGroupNameChar false) then
      .ok (name, rest)
    else .error .badGroupName
  | _, _ => .error .badGroupName

/-- Opens a group with a name. -/
def readNamedGroup (p : Progress) (cs : List Char) :
    Except PatternFault (Progress × List Char) := do
  let (name, rest) ← readGroupName cs
  if p.names.contains name then .error .duplicateGroupName
  else return ({ p.openCapture with names := name :: p.names }, rest)

/-- Reads the start of a group behind its parenthesis, or flags for the rest of
the group around it. -/
def readGroup (p : Progress) (cs : List Char) :
    Except PatternFault (Progress × List Char) :=
  match p.flags.dropGap cs with
  | '?' :: '=' :: _ | '?' :: '!' :: _ | '?' :: '<' :: '=' :: _
  | '?' :: '<' :: '!' :: _ =>
    .error .lookAround
  | '?' :: 'P' :: '<' :: cs => readNamedGroup p cs
  | '?' :: '<' :: cs => readNamedGroup p cs
  | '?' :: ')' :: _ => .error .missingOperand
  | '?' :: cs => do
    let (flags, rest) ← p.flags.read [] true cs
    match rest with
    | ':' :: rest => return (p.openGroup none flags, rest)
    | _ =>
      return ({ p with
        flags
        branches := { p.branches with items := none :: p.branches.items } },
        rest.drop 1)
  | cs => .ok (p.openCapture, cs)

/-- Reads the digits of a number in reverse, `cs` being shorter than `bound`. -/
def readDigits (f : Flags) :
    (bound : Nat) → (digits : List Nat) → List Char → List Nat × List Char
  | 0, digits, cs => (digits, cs)
  | bound + 1, digits, cs =>
    match cs with
    | [] => (digits, [])
    | c :: rest =>
      if '0' ≤ c ∧ c ≤ '9' then
        readDigits f bound ((c.toNat - 48) :: digits) (f.dropGap rest)
      else (digits, cs)

/-- Reads a number of 32 bits, if there is one, and the blanks around it. -/
def readCount (f : Flags) (cs : List Char) :
    Except PatternFault (Option Nat × List Char) :=
  let cs := cs.dropWhile Text.isBlank
  let (digits, rest) := readDigits f (cs.length + 1) [] cs
  let n := digits.foldr (fun d n => 10 * n + d) 0
  if digits.isEmpty then .ok (none, rest.dropWhile Text.isBlank)
  else if n < 0x100000000 then .ok (some n, rest.dropWhile Text.isBlank)
  else .error .badCount

/-- Reads the bounds of a repetition behind the opening brace: `n`, `n,` or
`n,m`, and the closing brace. -/
def readBounds (f : Flags) (cs : List Char) :
    Except PatternFault (Nat × Option Nat × List Char) := do
  let (least, rest) ← readCount f (f.dropGap cs)
  match least, rest with
  | some n, '\x7d' :: rest => return (n, some n, rest)
  | some n, ',' :: rest =>
    match f.dropGap rest with
    | '\x7d' :: rest => return (n, none, rest)
    | rest => do
      let (most, rest) ← readCount f rest
      match most, rest with
      | some m, '\x7d' :: rest =>
        if n ≤ m then return (n, some m, rest) else .error .badCount
      | _, _ => .error .badCount
  | _, _ => .error .badCount

/-- Reads the question mark that makes a repetition lazy. -/
def readLazy : List Char → Bool × List Char
  | '?' :: rest => (true, rest)
  | rest => (false, rest)

/-- The characters that a dot matches. -/
def Flags.dot (f : Flags) : Expr :=
  let set : CharSet :=
    if f.dotAll then .complement .nothing
    else if f.crlf then .complement (.ofIntervals [(10, 10), (13, 13)])
    else .complement (.single 10)
  if f.unicode then .char set else .byte set

/-- The anchor that a circumflex stands for. -/
def Flags.startAnchor (f : Flags) : Anchor :=
  if f.multiLine then if f.crlf then .crlfLineStart else .lineStart
  else .textStart

/-- The anchor that a dollar sign stands for. -/
def Flags.endAnchor (f : Flags) : Anchor :=
  if f.multiLine then if f.crlf then .crlfLineEnd else .lineEnd else .textEnd

/-- Reads one element of a pattern, which starts with `c`. -/
def readElementAt (p : Progress) (c : Char) (cs : List Char) :
    Except PatternFault (Progress × List Char) :=
  let repeated (least : Nat) (most : Option Nat) (cs : List Char) :
      Except PatternFault (Progress × List Char) := do
    let (lazy, rest) := readLazy cs
    return (← p.repeatLast least most lazy, rest)
  match c with
  | '(' => readGroup p cs
  | ')' => do return (← p.closeGroup, cs)
  | '|' => .ok ({ p with branches := p.branches.next }, cs)
  | '[' => do
    let (set, rest) ← readClass p.flags (c :: cs)
    return (p.push (if p.flags.unicode then .char set else .byte set), rest)
  | '?' => repeated 0 (some 1) cs
  | '*' => repeated 0 none cs
  | '+' => repeated 1 none cs
  | '\x7b' => do
    let (least, most, rest) ← readBounds p.flags cs
    repeated least most (p.flags.dropGap rest)
  | '\\' => do
    let (a, rest) ← readEscape p.flags cs
    return (p.push (a.toExpr p.flags), rest)
  | '.' => .ok (p.push p.flags.dot, cs)
  | '^' => .ok (p.push (.anchor p.flags.startAnchor), cs)
  | '$' => .ok (p.push (.anchor p.flags.endAnchor), cs)
  | c => .ok (p.push (Atom.toExpr p.flags (.point c.toNat false)), cs)

/-- Reads a pattern element by element; `skip` is how many of the characters
have been read already. -/
def readPattern (p : Progress) (skip : Nat) :
    List Char → Except PatternFault Progress
  | [] => .ok p
  | c :: cs =>
    match skip with
    | skip + 1 => readPattern p skip cs
    | 0 =>
      let gap := p.flags.dropGap (c :: cs)
      if gap.length ≤ cs.length then readPattern p (cs.length - gap.length) cs
      else match readElementAt p c cs with
        | .error e => .error e
        | .ok (p, rest) => readPattern p (cs.length - rest.length) cs

/-- Reads a whole pattern. -/
def Expr.ofText? (text : List Char) : Except PatternFault Expr := do
  (← readPattern .initial 0 text).finish

end Lexigram.Pattern
