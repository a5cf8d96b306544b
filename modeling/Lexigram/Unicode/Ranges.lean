/-!
Sets of code points as closed intervals. A set is written as lines: hexadecimal
bounds, blanks between the intervals of a line, `41-5A` for an interval and `5F`
for a single point. The intervals ascend and do not overlap, so membership is a
binary search.
-/

namespace Lexigram.Unicode

/-- Ascending, disjoint, closed intervals of code points. -/
structure Ranges where
  intervals : Array (Nat × Nat)
  deriving Repr, DecidableEq, Inhabited

/-- The value of a hexadecimal digit, in either case. -/
def hexDigit? (c : Char) : Option Nat :=
  if '0' ≤ c ∧ c ≤ '9' then some (c.toNat - 48)
  else if 'a' ≤ c ∧ c ≤ 'f' then some (c.toNat - 87)
  else if 'A' ≤ c ∧ c ≤ 'F' then some (c.toNat - 55)
  else none

namespace Ranges

/-- An interval being read: the ones before it, its lower bound once that is
complete, and the digits of the number in progress. -/
private structure Partial where
  done : Array (Nat × Nat)
  low : Option Nat
  value : Nat

private def Partial.close (p : Partial) : Array (Nat × Nat) :=
  p.done.push (p.low.getD p.value, p.value)

private def Partial.feed (p : Partial) (c : Char) : Partial :=
  match hexDigit? c with
  | some d => { p with value := 16 * p.value + d }
  | none =>
    if c = '-' then { p with low := some p.value, value := 0 }
    else ⟨p.close, none, 0⟩

/-- Reads intervals from lines of text. -/
def ofHex (lines : List String) : Ranges :=
  ⟨lines.foldl (fun done line => (line.toList.foldl Partial.feed
    ⟨done, none, 0⟩).close) #[]⟩

/-- Looks for `n` in the intervals from `lo` up to but excluding `hi`. -/
def search (intervals : Array (Nat × Nat)) (n lo hi : Nat) : Bool :=
  if lo < hi then
    let mid := (lo + hi) / 2
    match intervals[mid]? with
    | none => false
    | some (first, last) =>
      if n < first then search intervals n lo mid
      else if last < n then search intervals n (mid + 1) hi
      else true
  else false
termination_by hi - lo

/-- Whether the set holds the code point `n`. -/
def contains (r : Ranges) (n : Nat) : Bool :=
  search r.intervals n 0 r.intervals.size

end Ranges

example : (Ranges.ofHex ["41-5A", "5F 61"]).intervals
    = #[(0x41, 0x5A), (0x5F, 0x5F), (0x61, 0x61)] := by decide

end Lexigram.Unicode
