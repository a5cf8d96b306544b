/-!
UTF-8, read from the head of a list of bytes. A list starts with a character,
with a stretch of bytes that belongs to no character, or is itself the beginning
of a character whose end is missing. Lossy decoding writes the replacement
character for each such stretch; `completeLength` cuts a beginning off the end
of a list.
-/

namespace Lexigram.Text

/-- A byte that can only follow the lead byte of a character. -/
def isContinuation (b : UInt8) : Bool :=
  0x80 ≤ b && b ≤ 0xBF

/-- For each byte after `lead` the interval it has to be in; none for a byte
that leads no character. The second byte is kept from forms longer than need be,
surrogates and points above 10FFFF. -/
def followers (lead : UInt8) : Option (List (UInt8 × UInt8)) :=
  if lead ≤ 0x7F then some []
  else if lead < 0xC2 then none
  else if lead ≤ 0xDF then some [(0x80, 0xBF)]
  else if lead = 0xE0 then some [(0xA0, 0xBF), (0x80, 0xBF)]
  else if lead = 0xED then some [(0x80, 0x9F), (0x80, 0xBF)]
  else if lead ≤ 0xEF then some [(0x80, 0xBF), (0x80, 0xBF)]
  else if lead = 0xF0 then some [(0x90, 0xBF), (0x80, 0xBF), (0x80, 0xBF)]
  else if lead ≤ 0xF3 then some [(0x80, 0xBF), (0x80, 0xBF), (0x80, 0xBF)]
  else if lead = 0xF4 then some [(0x80, 0x8F), (0x80, 0xBF), (0x80, 0xBF)]
  else none

/-- How many bytes, from the first on, are in their intervals. -/
def fitting : List (UInt8 × UInt8) → List UInt8 → Nat
  | (low, high) :: intervals, b :: bytes =>
    if low ≤ b ∧ b ≤ high then fitting intervals bytes + 1 else 0
  | _, _ => 0

/-- The code point with lead byte `lead` and the continuation bytes `rest`. -/
def codePoint (lead : UInt8) (rest : List UInt8) : Nat :=
  let top := match rest.length with
    | 0 => lead.toNat
    | 1 => lead.toNat % 32
    | 2 => lead.toNat % 16
    | _ => lead.toNat % 8
  rest.foldl (fun n b => 64 * n + b.toNat % 64) top

/-- What a list of bytes starts with, and over how many bytes. -/
inductive Head where
  /-- A character. -/
  | scalar (c : Char) (length : Nat)
  /-- Bytes that belong to no character: the longest beginning of one that is
  broken off, or one byte. -/
  | broken (length : Nat)
  /-- The list is the beginning of a character, without its end. -/
  | cut (length : Nat)
  deriving Repr, DecidableEq

/-- Reads the head of the list that starts with `lead`. -/
def head (lead : UInt8) (rest : List UInt8) : Head :=
  match followers lead with
  | none => .broken 1
  | some intervals =>
    let fit := fitting intervals rest
    if fit = intervals.length then
      .scalar (Char.ofNat (codePoint lead (rest.take fit))) (fit + 1)
    else if fit = rest.length then .cut (fit + 1)
    else .broken (fit + 1)

/-- How many bytes the head takes. -/
def Head.length : Head → Nat
  | .scalar _ n => n
  | .broken n => n
  | .cut n => n

/-- The character the head is decoded to. -/
def Head.char : Head → Char
  | .scalar c _ => c
  | .broken _ => '\uFFFD'
  | .cut _ => '\uFFFD'

/-- The character at the front of a list of bytes, and the number of its
bytes. -/
def charAtFront? : List UInt8 → Option (Char × Nat)
  | [] => none
  | lead :: rest =>
    match head lead rest with
    | .scalar c n => some (c, n)
    | _ => none

/-- The character at the end of a list of bytes that is given in reverse: it is
read from the last byte that is no continuation, at most four bytes back, and
may leave continuation bytes after it unread. -/
def charAtBack? (reversed : List UInt8) : Option Char :=
  let trail := (reversed.take 3).takeWhile isContinuation
  (charAtFront? (reversed.take (trail.length + 1)).reverse).map (·.1)

theorem fitting_le (intervals : List (UInt8 × UInt8)) (bytes : List UInt8) :
    fitting intervals bytes ≤ bytes.length := by
  induction bytes generalizing intervals with
  | nil => cases intervals <;> simp [fitting]
  | cons b bytes ih =>
    cases intervals with
    | nil => simp [fitting]
    | cons interval intervals =>
      rw [fitting]
      split
      · exact Nat.succ_le_succ (ih intervals)
      · exact Nat.zero_le _

/-- The head takes its lead byte and the bytes that fit behind it. -/
theorem length_head (lead : UInt8) (rest : List UInt8) :
    (head lead rest).length
      = ((followers lead).elim 0 (fitting · rest)) + 1 := by
  unfold head
  cases followers lead with
  | none => rfl
  | some intervals =>
    simp only [Option.elim_some]
    split
    · rfl
    · split <;> rfl

theorem length_head_pos (lead : UInt8) (rest : List UInt8) :
    0 < (head lead rest).length := by
  rw [length_head]; exact Nat.succ_pos _

theorem length_head_le (lead : UInt8) (rest : List UInt8) :
    (head lead rest).length ≤ rest.length + 1 := by
  rw [length_head]
  cases followers lead with
  | none => simp
  | some intervals => exact Nat.succ_le_succ (fitting_le intervals rest)

/-- All characters of a list of bytes, U+FFFD for each stretch that belongs to
none. -/
def decodeLossy : List UInt8 → List Char
  | [] => []
  | lead :: rest =>
    let first := head lead rest
    first.char :: decodeLossy (rest.drop (first.length - 1))
termination_by bytes => bytes.length
decreasing_by simp only [List.length_drop, List.length_cons]; omega

/-- A byte of ASCII is a character of its own. -/
theorem decodeLossy_cons_ascii {b : UInt8} (ascii : b ≤ 0x7F)
    (rest : List UInt8) :
    decodeLossy (b :: rest) = Char.ofNat b.toNat :: decodeLossy rest := by
  have scalar : head b rest = .scalar (Char.ofNat b.toNat) 1 := by
    cases rest <;> simp [head, followers, ascii, fitting, codePoint]
  rw [decodeLossy, scalar]
  rfl

/-- The text of a list of bytes. -/
def lossy (bytes : List UInt8) : String :=
  String.ofList (decodeLossy bytes)

/-- The bytes of a text. -/
def bytesOf (s : String) : List UInt8 :=
  s.toUTF8.toList

/-- The last `k` bytes, when there are as many and the first of them is no
continuation. -/
def lastFrom? (bytes : List UInt8) (k : Nat) : Option (List UInt8) :=
  match bytes.drop (bytes.length - k) with
  | [] => none
  | lead :: rest =>
    if k ≤ bytes.length ∧ !isContinuation lead then some (lead :: rest)
    else none

/-- The length without a character at the end whose own end is missing. -/
def completeLength (bytes : List UInt8) : Nat :=
  match [1, 2, 3].findSome? (lastFrom? bytes) with
  | some (lead :: rest) =>
    match head lead rest with
    | .cut n => bytes.length - n
    | _ => bytes.length
  | _ => bytes.length

end Lexigram.Text
