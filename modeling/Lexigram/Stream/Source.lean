/-!
Byte sources. A source is a script of what its reads will give: bytes, failures,
or the end of the thread that reads. After the script every read gives no bytes,
which means the end of the stream.
-/

namespace Lexigram

/-- The kinds of failures of a read. -/
inductive FailureKind where
  /-- The read was interrupted and can be tried again. -/
  | interrupted
  | wouldBlock
  | unexpectedEof
  | timedOut
  | other
  deriving Repr, DecidableEq

/-- A failed read. -/
structure ReadFailure where
  kind : FailureKind
  message : String
  deriving Repr, DecidableEq

/-- One entry of a script. -/
inductive Chunk where
  /-- Bytes, given out by as many reads as it takes. -/
  | bytes (content : List UInt8)
  | failure (f : ReadFailure)
  /-- The thread that reads ends. -/
  | death
  deriving Repr, DecidableEq

/-- What is still to be read. -/
abbrev Source := List Chunk

/-- What one read gives. -/
inductive Served where
  /-- Bytes; none at the end of the stream. -/
  | bytes (content : List UInt8)
  | failure (f : ReadFailure)
  | death
  deriving Repr, DecidableEq

/-- A read as seen from outside: the space it was offered, and the number of
bytes read or its failure. -/
structure ReadRecord where
  space : Nat
  outcome : Except FailureKind Nat

namespace Source

/-- Reads at most `space` bytes. -/
def read (space : Nat) : Source → Served × Source
  | [] => (.bytes [], [])
  | .bytes content :: rest =>
    (.bytes (content.take space),
      match content.drop space with
      | [] => rest
      | left => .bytes left :: rest)
  | .failure f :: rest => (.failure f, rest)
  | .death :: rest => (.death, rest)

/-- A bound on the reads and the bytes that are to come. -/
def weight : Source → Nat
  | [] => 0
  | .bytes content :: rest => content.length + 1 + weight rest
  | _ :: rest => 1 + weight rest

/-- Reads until a read is not interrupted. Gives the failed attempts, and the
outcome. -/
def readPatiently (space : Nat) : Source → List ReadRecord × Served × Source
  | .failure ⟨.interrupted, _⟩ :: rest =>
    let (reads, outcome) := readPatiently space rest
    (⟨space, .error .interrupted⟩ :: reads, outcome)
  | source => ([], source.read space)

theorem weight_read_bytes {space : Nat} {source rest : Source}
    {content : List UInt8} (h : source.read space = (.bytes content, rest)) :
    rest.weight + content.length ≤ source.weight := by
  match source with
  | [] => cases h; simp [weight]
  | .bytes all :: others =>
    simp only [read, Prod.mk.injEq, Served.bytes.injEq] at h
    obtain ⟨rfl, rfl⟩ := h
    have := all.length_take (i := space)
    split
    · simp only [weight]; omega
    · next left =>
      have := all.length_drop (i := space)
      simp only [weight]
      omega
  | .failure _ :: _ => cases h
  | .death :: _ => cases h

theorem weight_readPatiently_bytes {space : Nat}
    {source rest : Source} {reads : List ReadRecord} {content : List UInt8}
    (h : source.readPatiently space = (reads, .bytes content, rest)) :
    rest.weight + content.length ≤ source.weight := by
  fun_induction readPatiently space source generalizing reads with
  | case1 message others reads' outcome inner ih =>
    cases h
    have := ih inner
    simp only [weight]
    omega
  | case2 source interrupted =>
    simp only [Prod.mk.injEq] at h
    exact weight_read_bytes h.2

end Source

end Lexigram
