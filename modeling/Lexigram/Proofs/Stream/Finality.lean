import Lexigram.Proofs.Stream.Answers
import Lexigram.Proofs.Stream.Progress
import Lexigram.Stream.Iteration

/-!
The last result is the last. A lexer that has given it gives it again and again,
and neither reads nor changes; before, its state tells what the last request
gave. An iteration over the results of a source asks up to the last one and no
more.
-/

namespace Lexigram

/-! ## The state after a request -/

namespace Lexer

variable {l : Lexer}

/-- A lexer that stays as it is gives its result to any number of requests. -/
theorem requests_of_next_eq {r : LexResult}
    (stays : l.next = ⟨l, some r, .empty⟩) (n : Nat) :
    l.requests n = List.replicate n ⟨l, some r, .empty⟩ := by
  induction n with
  | zero => rfl
  | succ n ih => rw [requests, stays, ih, List.replicate_succ]

/-- After a result the state is that of this result. -/
theorem state_next (settled : l.Settled) {r : LexResult}
    (gives : l.next.result = some r) :
    l.next.lexer.state = .after r := by
  by_cases awake : l.state.Awake
  · cases scan : l.scan.result with
    | none =>
      rw [next_of_awake awake, scan] at gives
      cases scan.symm.trans gives
    | some r' =>
      rw [next_of_awake awake, scan] at gives ⊢
      cases scan.symm.trans gives
      rfl
  · obtain ⟨e, stays, state⟩ := next_of_not_awake awake
    rw [stays] at gives ⊢
    cases gives
    show l.state = .after (.error e)
    obtain ⟨state, rfl⟩ | state := state
    · exact state
    · obtain ⟨last, other⟩ := settled.fatal e state
      rw [state]
      cases e with
      | endOfStream => exact absurd rfl other
      | invalidToken p text => cases last
      | unmatchable p snippet => rfl
      | readFailed f => rfl
      | workerLost => rfl

theorem exists_of_mem_requests {turn : Turn} {n : Nat}
    (h : turn ∈ l.requests n) :
    ∃ k, turn = (l.afterRequests k).next := by
  induction n generalizing l with
  | zero => cases h
  | succ n ih =>
    rcases List.mem_cons.mp h with rfl | h
    · exact ⟨0, rfl⟩
    · obtain ⟨k, same⟩ := ih h
      exact ⟨k + 1, same⟩

end Lexer

/-! ## Results up to the last -/

/-- Whether a request gave a last result. -/
def isFinal : Option LexResult → Bool
  | some r => r.isLast
  | none => false

/-- The results up to the first that is the last. -/
def upToLast : List (Option LexResult) → List (Option LexResult)
  | [] => []
  | r :: results => r :: if isFinal r then [] else upToLast results

/-- What an iteration gives for a result. -/
def Pull.of : Option LexResult → Pull
  | none => .lost
  | some (.error .endOfStream) => .ended
  | some r => .item r

namespace ResultSource

variable {σ : Type} [ResultSource σ]

/-- What `n` requests in a row give. -/
def results (source : σ) : (n : Nat) → List (Option LexResult)
  | 0 => []
  | n + 1 => (request source).2 :: results (request source).1 n

/-- A source after `n` requests. -/
def after (source : σ) : (n : Nat) → σ
  | 0 => source
  | n + 1 => after (request source).1 n

theorem results_lexer (l : Lexer) (n : Nat) :
    results l n = (l.requests n).map (·.result) := by
  induction n generalizing l with
  | zero => rfl
  | succ n ih => exact congrArg (l.next.result :: ·) (ih l.next.lexer)

theorem after_lexer (l : Lexer) (n : Nat) : after l n = l.afterRequests n := by
  induction n generalizing l with
  | zero => rfl
  | succ n ih => exact ih l.next.lexer

end ResultSource

namespace Iteration

variable {σ : Type} [ResultSource σ]

open ResultSource

/-- What an iteration gives when it is asked `n` times in a row. -/
def pulls (it : Iteration σ) : (n : Nat) → Iteration σ × List Pull
  | 0 => (it, [])
  | n + 1 => ((it.next.1.pulls n).1, it.next.2 :: (it.next.1.pulls n).2)

/-- An iteration that is done stays as it is. -/
theorem pulls_of_done (source : σ) (n : Nat) :
    (⟨source, true⟩ : Iteration σ).pulls n
      = (⟨source, true⟩, List.replicate n .ended) := by
  have next : (⟨source, true⟩ : Iteration σ).next = (⟨source, true⟩, .ended) :=
    rfl
  induction n with
  | zero => rfl
  | succ n ih => rw [pulls, next, ih, List.replicate_succ]

/-- An iteration passes a result on, and is done if it is the last. -/
theorem next_of (source : σ) :
    (of source).next = (⟨(request source).1, isFinal (request source).2⟩, .of
      (request source).2) := by
  rw [next, of, if_neg Bool.false_ne_true]
  dsimp only
  rcases request source with ⟨source', - | e | token⟩
  · rfl
  · cases e with
    | endOfStream => rfl
    | invalidToken p text => rfl
    | unmatchable p snippet => rfl
    | readFailed f => rfl
    | workerLost => rfl
  · rfl

/-- Asked `n` times in a row, an iteration makes the requests up to the last
result and passes on what they give. -/
theorem pulls_of (source : σ) (n : Nat) :
    ((of source).pulls n).1.source
      = after source (upToLast (results source n)).length
      ∧ ((of source).pulls n).2 = (upToLast (results source n)).map Pull.of
        ++ List.replicate (n - (upToLast (results source n)).length)
        .ended := by
  induction n generalizing source with
  | zero => exact ⟨rfl, rfl⟩
  | succ n ih =>
    -- whether the first result is the last decides what the iteration is behind
    -- it
    rw [pulls, next_of]
    cases final : isFinal (request source).2 with
    | true =>
      rw [results, upToLast, if_pos final]
      show ((⟨_, true⟩ : Iteration σ).pulls n).1.source = _
        ∧ Pull.of _ :: ((⟨_, true⟩ : Iteration σ).pulls n).2 = _
      rw [pulls_of_done]
      exact ⟨rfl, rfl⟩
    | false =>
      obtain ⟨same, pulled⟩ := ih (request source).1
      rw [results, upToLast, if_neg (by rw [final]; exact Bool.false_ne_true),
        List.length_cons, Nat.add_sub_add_right]
      exact ⟨same, congrArg (Pull.of (request source).2 :: ·) pulled⟩

/-- There is nothing left to iterate over behind the last result. -/
theorem items_of_done (source : σ) (n : Nat) :
    ((⟨source, true⟩ : Iteration σ).items n).2 = [] := by
  cases n with
  | zero => rfl
  | succ n => rfl

/-- A request for each item. -/
theorem items_of_lexer_succ (l : Lexer) (n : Nat) :
    ((of l).items (n + 1)).2 = match Pull.of l.next.result with
      | .item r =>
        r ::
          ((⟨l.next.lexer, isFinal l.next.result⟩ : Iteration Lexer).items n).2
      | _ => [] := by
  have result : (request l).2 = l.next.result := rfl
  rw [items, next_of, result]
  cases Pull.of l.next.result <;> rfl

/-- A loop over a lexer sees what its results are. The items of an iteration,
which is asked one request at a time and stops by itself, are those of the list
of results that the lexer gives turn by turn, so what is shown of these results
holds of what such a loop does. -/
theorem items_of_lexer (l : Lexer) (n : Nat) :
    ((of l).items n).2 = LexResult.items
      ((l.turns n).filterMap (·.result)) := by
  induction n generalizing l with
  | zero => rfl
  | succ n ih =>
    have items := items_of_lexer_succ l n
    cases gives : l.next.result with
    | none =>
      have turns : (l.turns (n + 1)).filterMap (·.result) = [] := by
        simp only [Lexer.turns, gives,
          List.filterMap_cons_none gives, List.filterMap_nil]
      rw [items, turns, gives]
      rfl
    | some r =>
      cases final : r.isLast with
      | true =>
        have turns : (l.turns (n + 1)).filterMap (·.result) = [r] := by
          simp only [Lexer.turns, gives, final, if_true,
            List.filterMap_cons_some gives, List.filterMap_nil]
        rw [items, turns, gives, show isFinal (some r) = true
          from final, items_of_done]
        rcases r with e | token
        · cases e <;> rfl
        · cases final
      | false =>
        have turns : (l.turns (n + 1)).filterMap (·.result)
            = [r] ++ (l.next.lexer.turns n).filterMap (·.result) := by
          simp only [Lexer.turns, gives, final, Bool.false_eq_true, if_false,
            List.filterMap_cons_some gives]
          rfl
        have item : Pull.of (some r) = .item r ∧ LexResult.items [r] = [r] := by
          rcases r with e | token
          · cases e <;> first | exact ⟨rfl, rfl⟩ | cases final
          · exact ⟨rfl, rfl⟩
        rw [items, turns, gives, show isFinal (some r) = false from final,
          item.1, LexResult.items, List.filter_append]
        show r :: ((of l.next.lexer).items n).2
          = LexResult.items [r] ++ LexResult.items _
        rw [ih, item.2]
        rfl

end Iteration

/-! ## Lexers and iterations -/

/-- **The last result stays.** Once a lexer has given a last result, every later
request gives it again, without a read and without a change to the lexer. After
every request the state tells what it gave, so that it is never that of a lexer
at a read, unless the source has ended the thread. Iterations over the results
of this lexer, or of any other source, give what requests give up to the last
result, the end of the stream aside, and make no more of them. -/
theorem Lexer.requests_after_last (c : Lexicon) (source : Source)
    (bufferSize : Nat) :
    (∀ n m r, ((new c source bufferSize).afterRequests n).next.result = some r →
        r.isLast = true →
        ((new c source bufferSize).afterRequests (n + 1)).requests m
          = List.replicate m ⟨(new c source bufferSize).afterRequests (n + 1),
            some r, .empty⟩)
      ∧ (∀ n, ∀ turn ∈ (new c source bufferSize).requests n,
          match turn.result with
        | some (.ok _) => turn.lexer.state = .tokenMatched
        | some (.error (.invalidToken _ _)) => turn.lexer.state = .ready
        | some (.error .endOfStream) => turn.lexer.state = .endOfStream
        | some (.error e) => turn.lexer.state = .fatalError e
        | none => Chunk.death ∈ source)
      ∧ (∀ n, ResultSource.results (new c source bufferSize) n
            = ((new c source bufferSize).requests n).map (·.result)
          ∧ ResultSource.after (new c source bufferSize) n
            = (new c source bufferSize).afterRequests n)
      ∧ ∀ (σ : Type) [ResultSource σ] (s : σ) (n : Nat),
        ((Iteration.of s).pulls n).1.source
            = ResultSource.after s (upToLast (ResultSource.results s n)).length
          ∧ ((Iteration.of s).pulls n).2 =
            (upToLast (ResultSource.results s n)).map Pull.of ++ List.replicate
            (n - (upToLast (ResultSource.results s n)).length) .ended := by
  refine ⟨fun n m r gives last => ?_, fun n turn mem => ?_, fun n => ⟨?_, ?_⟩,
    fun σ _ s n => ?_⟩
  · rw [afterRequests_succ]
    exact requests_of_next_eq (next_next_of_isLast gives last) m
  · obtain ⟨k, rfl⟩ := exists_of_mem_requests mem
    cases gives : ((new c source bufferSize).afterRequests k).next.result with
    | none =>
      exact ((new c source bufferSize).reads_requests k).deaths
        (mem_death_of_next gives)
    | some r =>
      have state := state_next
        (settled_afterRequests (settled_new c source bufferSize) k) gives
      rcases r with e | token
      · cases e with
        | endOfStream => exact state
        | invalidToken p text => exact state
        | unmatchable p snippet => exact state
        | readFailed f => exact state
        | workerLost => exact state
      · exact state
  · exact ResultSource.results_lexer _ n
  · exact ResultSource.after_lexer _ n
  · exact Iteration.pulls_of s n

end Lexigram
