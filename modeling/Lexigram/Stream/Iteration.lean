import Lexigram.Stream.Worker

/-!
Iteration over results. Lexers and pipelines hand out results one at a time; an
iteration asks for them until it has come to the last one, and then asks no
more.
-/

namespace Lexigram

/-- Things that hand out results one at a time. -/
class ResultSource (σ : Type) where
  /-- Asks for the next result. There is none if that ended the thread. -/
  request : σ → σ × Option LexResult

instance : ResultSource Lexer where
  request l :=
    let turn := l.next
    (turn.lexer, turn.result)

instance : ResultSource Pipeline where
  request p :=
    let (p, result) := p.next
    (p, some result)

/-- A lexer, and what could be seen of its work so far. -/
structure ObservedLexer where
  lexer : Lexer
  seen : Trace

instance : ResultSource ObservedLexer where
  request o :=
    let turn := o.lexer.next
    (⟨turn.lexer, o.seen.append turn.trace⟩, turn.result)

/-- An iteration over results. -/
structure Iteration (σ : Type) where
  source : σ
  /-- Whether it has come to the last result. -/
  done : Bool

/-- What an iteration gives when it is asked for an item. -/
inductive Pull where
  | item (result : LexResult)
  | ended
  /-- The thread ended. -/
  | lost

namespace Iteration

variable {σ : Type} [ResultSource σ]

/-- An iteration over the results to come. -/
def of (source : σ) : Iteration σ :=
  ⟨source, false⟩

/-- The next item. The end of the stream is none, and after the last result
there are no more. -/
def next (it : Iteration σ) : Iteration σ × Pull :=
  if it.done then (it, .ended)
  else
    match ResultSource.request it.source with
    | (source, some (.error .endOfStream)) => (⟨source, true⟩, .ended)
    | (source, some (.error e)) =>
      (⟨source, !e.isRecoverable⟩, .item (.error e))
    | (source, some (.ok token)) => ({ it with source }, .item (.ok token))
    | (source, none) => ({ it with source }, .lost)

/-- The items that there are, `limit` at most. -/
def items (it : Iteration σ) : (limit : Nat) → Iteration σ × List LexResult
  | 0 => (it, [])
  | limit + 1 =>
    match it.next with
    | (it, .item result) =>
      let (it, results) := it.items limit
      (it, result :: results)
    | (it, _) => (it, [])

end Iteration

end Lexigram
