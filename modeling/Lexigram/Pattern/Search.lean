import Lexigram.Pattern.Anchor
import Lexigram.Pattern.Program
import Lexigram.Pattern.Reader

/-!
Searching. A program is run depth first, the preferred branch of each split
before the other, and no instruction is run twice at one position: what the
first run did not find the second would not find either. So the first match
reached is the one the pattern prefers. `Pattern.search?` tries the positions of
a text from left to right.
-/

namespace Lexigram.Pattern

/-- A point that a run has reached: the next instruction, the place in the text,
and the slots saved on the way, the latest first. -/
structure Thread where
  pc : Nat
  /-- The bytes in front, in reverse. -/
  before : List UInt8
  /-- The bytes behind. -/
  after : List UInt8
  /-- How many bytes are in front. -/
  offset : Nat
  saves : List (Nat × Nat)
  deriving Repr, DecidableEq

namespace Thread

/-- The thread at another instruction. -/
def goto (t : Thread) (pc : Nat) : Thread :=
  { t with pc }

/-- The thread at the next instruction, `n` bytes further on. -/
def take (t : Thread) (n : Nat) : Thread :=
  { t with
    pc := t.pc + 1
    before := (t.after.take n).reverse ++ t.before
    after := t.after.drop n
    offset := t.offset + n }

/-- Where a thread can go on, in order of preference. -/
def step (t : Thread) : Instruction → List Thread
  | .char set =>
    match Text.charAtFront? t.after with
    | some (c, n) => if set.contains c.toNat then [t.take n] else []
    | none => []
  | .byte set =>
    match t.after with
    | b :: _ => if set.contains b.toNat then [t.take 1] else []
    | [] => []
  | .anchor a => if a.holds t.before t.after then [t.goto (t.pc + 1)] else []
  | .save slot =>
    [{ t with pc := t.pc + 1, saves := (slot, t.offset) :: t.saves }]
  | .split first second => [t.goto first, t.goto second]
  | .jump target => [t.goto target]
  | .accept => []

end Thread

/-- The points that have been run: for each position a number whose bits stand
for instructions. -/
abbrev Visited := Array Nat

namespace Visited

/-- Nothing run. -/
def empty : Visited := #[]

/-- Whether an instruction has been run at a position. -/
def contains (v : Visited) (pc offset : Nat) : Bool :=
  (v.getD offset 0).testBit pc

/-- The same points, with room for a position. -/
def widen (v : Visited) (offset : Nat) : Visited :=
  if offset < v.size then v else v ++ Array.replicate (offset + 1 - v.size) 0

/-- Marks an instruction as run at a position. -/
def insert (v : Visited) (pc offset : Nat) : Visited :=
  (v.widen offset).modify offset (· ||| 1 <<< pc)

@[simp] theorem contains_empty (pc offset : Nat) :
    empty.contains pc offset = false := by
  simp [contains, empty]

theorem getD_widen (v : Visited) (offset other : Nat) :
    (v.widen offset).getD other 0 = v.getD other 0 := by
  simp only [widen, Array.getD_eq_getD_getElem?]
  split
  · rfl
  · rw [Array.getElem?_append]
    split
    · rfl
    · next unknown =>
      rw [Array.getElem?_replicate,
        Array.getElem?_eq_none (Nat.le_of_not_lt unknown)]
      split <;> rfl

theorem lt_size_widen (v : Visited) (offset : Nat) :
    offset < (v.widen offset).size := by
  simp only [widen]
  split
  · assumption
  · simp only [Array.size_append, Array.size_replicate]
    omega

@[simp] theorem contains_insert (v : Visited)
    (pc offset other otherOffset : Nat) :
    (v.insert pc offset).contains other otherOffset
      = (decide (other = pc ∧ otherOffset = offset)
        || v.contains other otherOffset) := by
  have kept := getD_widen v offset otherOffset
  have wide := lt_size_widen v offset
  simp only [contains, insert, Array.getD_eq_getD_getElem?,
    Array.getElem?_modify] at kept ⊢
  by_cases here : offset = otherOffset
  · subst here
    rw [if_pos rfl, ← kept, Array.getElem?_eq_getElem wide]
    simp only [Option.map_some, Option.getD_some, Nat.testBit_or,
      Nat.one_shiftLeft, Nat.testBit_two_pow, and_true, Bool.or_comm, eq_comm]
  · rw [if_neg here, kept]
    simp [Ne.symm here]

end Visited

/-- Runs the threads on a stack, the top one first, until one matches. Every
point is run once and puts two threads on the stack at most, so a budget of two
for each point and one for each thread at the start is enough. -/
def run (program : Array Instruction) :
    (budget : Nat) → Visited → List Thread → Option Thread × Visited
  | 0, visited, _ => (none, visited)
  | _ + 1, visited, [] => (none, visited)
  | budget + 1, visited, t :: stack =>
    if visited.contains t.pc t.offset then run program budget visited stack
    else match program[t.pc]? with
      | none => run program budget visited stack
      | some .accept => (some t, visited)
      | some i =>
        run program budget (visited.insert t.pc t.offset) (t.step i ++ stack)

/-- What a pattern matched in a text: for each group, the whole match first,
where it starts and ends, if it took part. -/
structure Match where
  groups : List (Option (Nat × Nat))
  deriving Repr, DecidableEq

namespace Match

/-- The bounds of a group. -/
def group? (m : Match) (n : Nat) : Option (Nat × Nat) :=
  m.groups.getD n none

/-- Where the whole match starts. -/
def start (m : Match) : Nat := ((m.group? 0).map (·.1)).getD 0

/-- Where the whole match ends. -/
def stop (m : Match) : Nat := ((m.group? 0).map (·.2)).getD 0

end Match

/-- The bounds saved for the group `n`. -/
def savedGroup (saves : List (Nat × Nat)) (n : Nat) : Option (Nat × Nat) :=
  match saves.lookup (2 * n), saves.lookup (2 * n + 1) with
  | some first, some last => some (first, last)
  | _, _ => none

/-- A pattern ready to be searched for. -/
structure Compiled where
  program : Array Instruction
  /-- How many groups it records, the whole match included. Their indices may
  have gaps. -/
  groups : Nat
  deriving Repr, DecidableEq

namespace Compiled

/-- The compiled form of an expression. -/
def ofExpr (e : Expr) : Compiled :=
  ⟨e.program, e.recorded + 1⟩

/-- Reads a pattern and compiles it. -/
def ofText? (text : String) : Except PatternFault Compiled :=
  (Expr.ofText? text.toList).map ofExpr

/-- What is enough to run the program from one position of a text of `size`
bytes. -/
def budget (c : Compiled) (size : Nat) : Nat :=
  2 * c.program.size * (size + 1) + 2

/-- Tries the positions from the one between `before` and `after` on. -/
def searchFrom (c : Compiled) (budget : Nat) (visited : Visited)
    (before : List UInt8) (offset : Nat) (after : List UInt8) : Option Match :=
  match run c.program budget visited [⟨0, before, after, offset, []⟩] with
  | (some t, _) =>
    some ⟨some (offset, t.offset) :: (List.range (groupCount c.program - 1)).map
      fun n => savedGroup t.saves (n + 1)⟩
  | (none, visited) =>
    match after with
    | [] => none
    | b :: after => searchFrom c budget visited (b :: before) (offset + 1) after

/-- The leftmost match in a text, of those that start there the one the pattern
prefers. -/
def search? (c : Compiled) (text : List UInt8) : Option Match :=
  c.searchFrom (c.budget text.length) .empty [] 0 text

/-- Whether there is a match. -/
def matchesIn (c : Compiled) (text : List UInt8) : Bool :=
  (c.search? text).isSome

end Compiled

end Lexigram.Pattern
