import Lexigram.Pattern.Expr

/-!
Programs. A pattern becomes a list of instructions that are run from the first
to the last; a `split` goes on at two places, of which the first is preferred.
Code is a function of the address it starts at.
-/

namespace Lexigram.Pattern

/-- One instruction. Those without an address go on at the next instruction. -/
inductive Instruction where
  /-- Takes a character out of a set. -/
  | char (set : CharSet)
  /-- Takes a byte out of a set. -/
  | byte (set : CharSet)
  | anchor (a : Anchor)
  /-- Records the position in a slot. -/
  | save (slot : Nat)
  /-- Goes on at `first` or, if that leads to no match, at `second`. -/
  | split (first second : Nat)
  | jump (target : Nat)
  /-- A match. -/
  | accept
  deriving Repr, DecidableEq, Inhabited

/-- Instructions, given the address of the first. -/
abbrev Code := Nat → List Instruction

namespace Code

/-- No instruction. -/
def skip : Code := fun _ => []

/-- One instruction. -/
def single (i : Instruction) : Code := fun _ => [i]

/-- One after the other. -/
def append (c d : Code) : Code := fun base =>
  let first := c base
  first ++ d (base + first.length)

/-- The first code or the second. -/
def choose (c d : Code) : Code := fun base =>
  let first := c (base + 1)
  let other := base + first.length + 2
  let second := d other
  .split (base + 1) other :: first ++ .jump (other + second.length) :: second

/-- A split that prefers going on inside a repetition if `greedy`, and leaving
it if not. -/
def branch (greedy : Bool) (inside outside : Nat) : Instruction :=
  if greedy then .split inside outside else .split outside inside

/-- Once or not at all. -/
def optional (greedy : Bool) (c : Code) : Code := fun base =>
  let body := c (base + 1)
  branch greedy (base + 1) (base + 1 + body.length) :: body

/-- At least once. -/
def many (greedy : Bool) (c : Code) : Code := fun base =>
  let body := c base
  body ++ [branch greedy base (base + body.length + 1)]

/-- A fixed number of times. -/
def times (c : Code) : Nat → Code
  | 0 => skip
  | n + 1 => c.append (c.times n)

/-- At most a number of times. -/
def upTo (greedy : Bool) (c : Code) : Nat → Code
  | 0 => skip
  | n + 1 => optional greedy (c.append (upTo greedy c n))

/-- At least `least` and at most `most` times. The last of the repetitions that
have to be made is the one that is repeated further. -/
def repetition (least : Nat) (most : Option Nat) (greedy : Bool)
    (c : Code) : Code :=
  match least, most with
  | least, some most => (c.times least).append (upTo greedy c (most - least))
  | 0, none => optional greedy (many greedy c)
  | least + 1, none => (c.times least).append (many greedy c)

end Code

/-- The code of an expression. A group with index `n` saves its bounds in the
slots `2 * n` and `2 * n + 1`. -/
def Expr.code : Expr → Code
  | .empty => .skip
  | .char set => .single (.char set)
  | .byte set => .single (.byte set)
  | .anchor a => .single (.anchor a)
  | .sequence a b => a.code.append b.code
  | .choice a b => a.code.choose b.code
  | .repetition body least most greedy =>
    Code.repetition least most greedy body.code
  | .group none body => body.code
  | .group (some n) body =>
    (Code.single (.save (2 * n))).append
      (body.code.append (.single (.save (2 * n + 1))))

/-- The program of an expression: its code, and a match. -/
def Expr.program (e : Expr) : Array Instruction :=
  (e.code.append (.single .accept) 0).toArray

/-- The number of groups, or as many as the group needs whose bounds are
saved. -/
def Instruction.widen (n : Nat) : Instruction → Nat
  | save slot => max n (slot / 2 + 1)
  | _ => n

/-- How many groups the matches of a program list, the whole match included: one
more than the highest index. -/
def groupCount (program : Array Instruction) : Nat :=
  program.foldl Instruction.widen 1

end Lexigram.Pattern
