import Lexigram.Log
import Lexigram.Stream.Source

/-!
Windows, sliding buffers over a source. A window holds the bytes that have been
read and not yet consumed. Its capacity is its nominal size, and more only while
that would leave less room for a read than half of the nominal size.
-/

namespace Lexigram

/-- A sliding buffer. -/
structure Window where
  /-- The capacity without need for more; one at least. -/
  nominal : Nat
  capacity : Nat
  /-- How many consumed bytes in front still take up room. -/
  start : Nat
  /-- The bytes read and not consumed. -/
  filled : List UInt8
  /-- Whether the stream has ended. -/
  exhausted : Bool
  deriving Repr, DecidableEq

/-- How filling a window ends. -/
inductive Filling where
  /-- So many bytes were read; none at the end of the stream. -/
  | read (count : Nat)
  | failure (f : ReadFailure)
  | death
  deriving Repr, DecidableEq

/-- A window after it was filled, with all that could be seen of that. -/
structure Filled where
  window : Window
  source : Source
  outcome : Filling
  reads : List ReadRecord
  records : List LogRecord

namespace Window

/-- An empty window. -/
def new (nominal : Nat) : Window :=
  ⟨max nominal 1, max nominal 1, 0, [], false⟩

/-- Whether all bytes read have been consumed. -/
def isEmpty (w : Window) : Bool :=
  w.filled.isEmpty

/-- Consumes bytes from the front. Once all are consumed all room is free. -/
def consume (w : Window) (count : Nat) : Window :=
  let left := w.filled.drop count
  { w with
    filled := left
    start := if left.isEmpty then 0 else w.start + count }

/-- The least room for a read, and the step the capacity grows by. -/
def growth (w : Window) : Nat :=
  max (w.nominal / 2) 1

/-- Whether capacity beyond the nominal size is no longer needed. -/
def shrinks (w : Window) : Bool :=
  w.nominal < w.capacity && w.filled.length + w.growth ≤ w.nominal

/-- The capacity after giving back what is not needed. -/
def keptCapacity (w : Window) : Nat :=
  if w.shrinks then w.nominal else w.capacity

/-- Whether the kept capacity leaves too little room for a read. -/
def grows (w : Window) : Bool :=
  w.keptCapacity - w.filled.length < w.growth

/-- Moves the bytes to the front, gives back capacity that is not needed, and
grows if there is too little room for a read. -/
def makeRoom (w : Window) : Window :=
  { w with
    start := 0
    capacity := if w.grows then w.keptCapacity + w.growth else w.keptCapacity }

/-- The records of making room. -/
def roomRecords (w : Window) : List LogRecord :=
  (if w.shrinks then
      [⟨.trace, "read buffer shrunk to " ++ toString w.nominal⟩]
    else [])
    ++ if w.grows then
      [⟨.trace, "read buffer grown to " ++ toString w.makeRoom.capacity⟩]
    else []

/-- The room behind the bytes, once they are at the front. -/
def space (w : Window) : Nat :=
  w.capacity - w.filled.length

/-- Adds the bytes of a read; none mean the end of the stream. -/
def receive (w : Window) (content : List UInt8) : Window :=
  { w with
    filled := w.filled ++ content
    exhausted := w.exhausted || content.isEmpty }

/-- Reads once, interruptions aside. -/
def fill (w : Window) (source : Source) : Filled :=
  let roomy := w.makeRoom
  let space := roomy.space
  match source.readPatiently space with
  | (attempts, .bytes content, source) =>
    ⟨roomy.receive content, source, .read content.length,
      attempts ++ [⟨space, .ok content.length⟩], w.roomRecords⟩
  | (attempts, .failure f, source) =>
    ⟨roomy, source, .failure f, attempts ++ [⟨space, .error f.kind⟩],
      w.roomRecords⟩
  | (attempts, .death, source) =>
    ⟨roomy, source, .death, attempts, w.roomRecords⟩

end Window

end Lexigram
