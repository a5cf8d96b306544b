import Mathlib.Algebra.GroupWithZero.Nat
import Lexigram.Proofs.Stream.Reads

/-!
Lexing comes to an end. Every token and every invalid token takes a byte at
least, so there are no more of them than bytes were read, and the requests of a
lexer come to a last result.
-/

namespace Lexigram

/-! ## The bytes of a source -/

/-- How many bytes a read brought. -/
def ReadRecord.count (r : ReadRecord) : Nat :=
  match r.outcome with
  | .ok count => count
  | .error _ => 0

/-- How many bytes reads brought. -/
def bytesRead (reads : List ReadRecord) : Nat :=
  (reads.map ReadRecord.count).sum

namespace Source

variable {source rest : Source} {space : Nat}

/-- How many bytes a source holds. -/
def size : Source → Nat
  | [] => 0
  | .bytes content :: rest => content.length + size rest
  | _ :: rest => size rest

theorem size_read_bytes {brought : List UInt8}
    (h : source.read space = (.bytes brought, rest)) :
    source.size = brought.length + rest.size := by
  match source with
  | [] => cases h; rfl
  | .bytes content :: others =>
    simp only [read, Prod.mk.injEq, Served.bytes.injEq] at h
    obtain ⟨rfl, rfl⟩ := h
    have split : content.length = (content.take space).length
        + (content.drop space).length := by
      rw [← List.length_append, List.take_append_drop]
    cases remains : content.drop space with
    | nil =>
      rw [remains] at split
      simp only [size, List.length_nil] at split ⊢
      omega
    | cons b left =>
      rw [remains] at split
      simp only [size]
      omega
  | .failure _ :: _ => cases h
  | .death :: _ => cases h

theorem size_read_failure {f : ReadFailure}
    (h : source.read space = (.failure f, rest)) :
    source.size = rest.size := by
  match source with
  | [] => cases h
  | .bytes _ :: _ => cases h
  | .failure _ :: _ => cases h; rfl
  | .death :: _ => cases h

theorem size_read_death (h : source.read space = (.death, rest)) :
    source.size = rest.size := by
  match source with
  | [] => cases h
  | .bytes _ :: _ => cases h
  | .failure _ :: _ => cases h
  | .death :: _ => cases h; rfl

namespace Serves

variable {reads : List ReadRecord} {content : List UInt8}

/-- What is delivered is taken from the source. -/
theorem size_eq (serves : source.Serves reads content rest) :
    source.size = content.length + rest.size := by
  induction serves with
  | done source => simp
  | bytes read _ ih =>
    rw [size_read_bytes read, ih, List.length_append]
    omega
  | failure read _ ih => rw [size_read_failure read, ih]
  | death read _ ih => rw [size_read_death read, ih]

/-- What is delivered is what the records count. -/
theorem length_eq (serves : source.Serves reads content rest) :
    content.length = bytesRead reads := by
  induction serves with
  | done source => rfl
  | bytes _ _ ih =>
    rw [List.length_append, ih]
    rfl
  | failure _ _ ih =>
    rw [ih]
    simp [bytesRead, ReadRecord.count]
  | death _ _ ih => exact ih

end Serves

end Source

/-! ## Every token takes a byte -/

/-- There are no more results than bytes for them. -/
theorem Piece.length_results_le (p : Position) {pieces : List Piece}
    {c : Lexicon} (h : ∀ piece ∈ pieces, piece.Judged c) :
    (results p pieces).length ≤ (content pieces).length := by
  induction pieces generalizing p with
  | nil => exact Nat.zero_le _
  | cons piece pieces ih =>
    have pos : 0 < piece.bytes.length :=
      List.length_pos_iff.mpr (h piece (.head _)).1
    have rest : (results (p.past piece.bytes) pieces).length
        ≤ (content pieces).length :=
      ih _ fun piece mem => h piece (.tail _ mem)
    have one : (piece.role.result? p piece.bytes).toList.length ≤ 1 :=
      Option.length_toList_le
    show ((piece.role.result? p piece.bytes).toList
      ++ results (p.past piece.bytes) pieces).length
      ≤ (piece.bytes ++ content pieces).length
    rw [List.length_append, List.length_append]
    omega

namespace Lexer

variable {l : Lexer}

/-- The bytes that can still be consumed. -/
def pending (l : Lexer) : Nat :=
  l.window.filled.length + l.source.size

namespace Accounts

variable {l' : Lexer} {reads : List ReadRecord} {pieces : List Piece}

theorem pending_eq (accounts : l.Accounts reads pieces l') :
    l.pending = (Piece.content pieces).length + l'.pending := by
  obtain ⟨content, serves, same⟩ := accounts.conserves
  have length := congrArg List.length same
  have size := serves.size_eq
  rw [List.length_append, List.length_append] at length
  rw [pending, pending, size]
  omega

theorem offset_eq (accounts : l.Accounts reads pieces l') :
    l'.position.offset = l.position.offset + (Piece.content pieces).length := by
  rw [accounts.position, Piece.offset_past]

end Accounts

/-- A token or an invalid token takes from the bytes to come, and the position
moves on. -/
theorem advances_next (settled : l.Settled) {r : LexResult}
    (gives : l.next.result = some r) (more : r.isLast = false) :
    l.next.lexer.pending < l.pending ∧
      l.position.offset < l.next.lexer.position.offset := by
  obtain ⟨pieces, accounts, results, -⟩ := exists_accounts_next settled
  have one : (Piece.results l.position pieces).length = 1 := by
    rw [results, gives]
    simp [tokenResults, more]
  have le := Piece.length_results_le l.position accounts.judged
  have pending := accounts.pending_eq
  have offset := accounts.offset_eq
  constructor
  · omega
  · omega

theorem settled_new (c : Lexicon) (source : Source) (bufferSize : Nat) :
    (new c source bufferSize).Settled :=
  ⟨nofun, nofun⟩

theorem settled_next (settled : l.Settled) : l.next.lexer.Settled := by
  obtain ⟨_, -, -, -, h⟩ := exists_accounts_next settled
  exact h

theorem settled_afterRequests (settled : l.Settled) (n : Nat) :
    (l.afterRequests n).Settled := by
  induction n generalizing l with
  | zero => exact settled
  | succ n ih => exact ih (settled_next settled)

theorem afterRequests_succ (l : Lexer) (n : Nat) :
    l.afterRequests (n + 1) = (l.afterRequests n).next.lexer := by
  induction n generalizing l with
  | zero => rfl
  | succ n ih => exact ih l.next.lexer

theorem requests_concat (l : Lexer) (n : Nat) :
    l.requests (n + 1) = l.requests n ++ [(l.afterRequests n).next] := by
  induction n generalizing l with
  | zero => rfl
  | succ n ih => exact congrArg (l.next :: ·) (ih l.next.lexer)

/-- The requests of a lexer that begin with tokens or invalid tokens come to one
that does not. -/
theorem exists_last (settled : l.Settled) :
    ∃ n, (∀ turn ∈ l.requests n, ∃ r, turn.result = some r ∧ r.isLast = false)
      ∧ ∀ r, (l.afterRequests n).next.result = some r → r.isLast = true := by
  induction pending : l.pending using Nat.strongRecOn generalizing l with
  | ind size ih =>
    cases gives : l.next.result with
    | none =>
      exact ⟨0, List.forall_mem_nil _, fun r h => by cases gives.symm.trans h⟩
    | some r =>
      cases final : r.isLast with
      | true =>
        refine ⟨0, List.forall_mem_nil _, fun r' h => ?_⟩
        cases gives.symm.trans h
        exact final
      | false =>
        obtain ⟨lt, -⟩ := advances_next settled gives final
        obtain ⟨n, before, behind⟩ :=
          ih _ (pending ▸ lt) (settled_next settled) rfl
        refine ⟨n + 1, fun turn mem => ?_, behind⟩
        rcases List.mem_cons.mp mem with rfl | mem
        · exact ⟨r, gives, final⟩
        · exact before turn mem

/-- Each of the requests that gave a token or an invalid token has taken a byte
that was read. -/
theorem length_tokenResults_le (c : Lexicon) (source : Source)
    (bufferSize n : Nat) :
    (tokenResults (((new c source bufferSize).requests n).map
      (·.result))).length
      ≤ bytesRead (((new c source bufferSize).requests n).flatMap
        (·.trace.reads)) := by
  obtain ⟨pieces, accounts, results, -⟩ :=
    exists_accounts_requests (settled_new c source bufferSize) n
  obtain ⟨content, serves, same⟩ := accounts.conserves
  have length : content.length = (Piece.content pieces).length + _ :=
    (congrArg List.length same).trans List.length_append
  rw [← results, ← serves.length_eq, length]
  exact Nat.le_trans (Piece.length_results_le _ accounts.judged)
    (Nat.le_add_right _ _)

theorem length_requests (l : Lexer) (n : Nat) : (l.requests n).length = n := by
  induction n generalizing l with
  | zero => rfl
  | succ n ih => rw [requests, List.length_cons, ih]

theorem length_tokenResults_of_forall {turns : List Turn}
    (h : ∀ turn ∈ turns, ∃ r, turn.result = some r ∧ r.isLast = false) :
    (tokenResults (turns.map (·.result))).length = turns.length := by
  induction turns with
  | nil => rfl
  | cons turn turns ih =>
    obtain ⟨r, gives, more⟩ := h turn (.head _)
    have rest := ih fun turn mem => h turn (.tail _ mem)
    show (tokenResults ([turn.result] ++ turns.map (·.result))).length = _
    rw [tokenResults_append, List.length_append, rest, gives]
    simp [tokenResults, more]
    omega

end Lexer

/-- **Lexing ends and moves on.** Each request to a lexer on any source makes no
more passes than the source allows for, and has a result unless the source ends
the thread. Every token and every invalid token moves the position on, so after
no more of them than bytes were read there is a last result. Every read is
offered space, there are no more reads than the source has entries and bytes,
and one that brings nothing is the last. -/
theorem Lexer.requests_end (c : Lexicon) (source : Source) (bufferSize : Nat) :
    (∀ n, ((new c source bufferSize).afterRequests n).scanWithin
          (2 * source.weight + 2)
          = some ((new c source bufferSize).afterRequests n).scan
        ∧ (((new c source bufferSize).afterRequests n).next.result = none →
          Chunk.death ∈ source))
      ∧ (∀ n r, ((new c source bufferSize).afterRequests n).next.result
        = some r → r.isLast = false →
        ((new c source bufferSize).afterRequests n).position.offset
          < ((new c source bufferSize).afterRequests (n + 1)).position.offset)
      ∧ (∃ n, n ≤ bytesRead (((new c source bufferSize).requests n).flatMap
        (·.trace.reads))
        ∧ (∀ turn ∈ (new c source bufferSize).requests n, ∃ r,
          turn.result = some r ∧ r.isLast = false)
        ∧ (((new c source bufferSize).afterRequests n).next.result = none
          ∧ Chunk.death ∈ source
          ∨ ∃ r, ((new c source bufferSize).afterRequests n).next.result
            = some r ∧ r.isLast = true))
      ∧ ∀ n, EndsOnce (((new c source bufferSize).requests n).flatMap
        (·.trace.reads))
        ∧ (((new c source bufferSize).requests n).flatMap
          (·.trace.reads)).length ≤ source.weight + 1 ∧
        ∀ read ∈ ((new c source bufferSize).requests n).flatMap (·.trace.reads),
        0 < read.space := by
  have settled := settled_new c source bufferSize
  have reads := (new c source bufferSize).reads_requests
  have death : ∀ n, ((new c source bufferSize).afterRequests n).next.result
      = none → Chunk.death ∈ source :=
    fun n noResult => (reads n).deaths (mem_death_of_next noResult)
  refine ⟨fun n => ⟨?_, death n⟩, fun n r gives more => ?_, ?_,
    fun n => ⟨(reads n).once, ?_, ?_⟩⟩
  · have weight := (reads n).weight
    have atStart : (new c source bufferSize).weight = 2 * source.weight + 1 :=
      rfl
    exact scanWithin_of_weight_lt (by omega)
  · rw [afterRequests_succ]
    exact (advances_next (settled_afterRequests settled n) gives more).2
  · obtain ⟨n, before, behind⟩ := exists_last settled
    refine ⟨n, ?_, before, ?_⟩
    · have le := length_tokenResults_le c source bufferSize n
      rw [length_tokenResults_of_forall before, length_requests] at le
      exact le
    · cases result :
          ((new c source bufferSize).afterRequests n).next.result with
      | none => exact .inl ⟨rfl, death n result⟩
      | some r => exact .inr ⟨r, rfl, behind r result⟩
  · have count := (reads n).count
    have atStart : (new c source bufferSize).readsToCome = source.weight + 1 :=
      rfl
    omega
  · exact ((reads n).roomy (Window.fits_new bufferSize)).2

end Lexigram
