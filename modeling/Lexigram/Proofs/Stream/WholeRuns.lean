import Lexigram.Proofs.Stream.Interleaving
import Lexigram.Proofs.Stream.Progress

/-!
Whole runs. On a source that does not end its thread, the results of a lexer are
tokens and invalid tokens, and then a last one (`Lexer.exists_run`). Whoever
goes on asking gets the results of the run and then the last one again, from the
lexer itself as well as from a worker (`Session.exists_received_prefix`).
-/

namespace Lexigram

theorem Source.size_le_weight (source : Source) :
    source.size ≤ source.weight := by
  induction source with
  | nil => exact Nat.le_refl _
  | cons chunk source ih => cases chunk <;> simp only [size, weight] <;> omega

/-- A token among the results of pieces is what one of them stands for. -/
theorem Piece.role_of_mem_results {p : Position} {pieces : List Piece}
    {token : StreamToken} (mem : .ok token ∈ Piece.results p pieces) :
    ∃ piece ∈ pieces, piece.role = .token token.kind := by
  induction pieces generalizing p with
  | nil => cases mem
  | cons piece pieces ih =>
    rcases List.mem_append.mp mem with here | there
    · refine ⟨piece, .head _, ?_⟩
      cases role : piece.role with
      | token kind =>
        rw [role] at here
        cases Option.mem_toList.mp here
        rfl
      | whitespace => rw [role] at here; cases here
      | error => rw [role] at here; cases Option.mem_toList.mp here
    · obtain ⟨piece', mem, role⟩ := ih there
      exact ⟨piece', .tail _ mem, role⟩

namespace Lexer

variable {l : Lexer}

/-- The results of a lexer up to the last. -/
def run (l : Lexer) : List LexResult :=
  (l.results l.enoughTurns).filterMap id

theorem pending_lt_enoughTurns (l : Lexer) : l.pending < l.enoughTurns := by
  have := l.source.size_le_weight
  simp only [pending, enoughTurns, weight]
  omega

theorem not_mem_death_next (alive : Chunk.death ∉ l.source) :
    Chunk.death ∉ l.next.lexer.source :=
  fun mem => alive ((reads_next l).deaths mem)

/-- Any number of turns that is large enough comes to the same last result. -/
theorem exists_results (settled : l.Settled) (alive : Chunk.death ∉ l.source) :
    ∃ before last, ((∀ r ∈ before, r.isLast = false) ∧ last.isLast = true)
      ∧ ∀ n, l.pending < n → l.results n = (before ++ [last]).map some := by
  induction bytes : l.pending using Nat.strongRecOn generalizing l with
  | ind size ih =>
    cases gives : l.next.result with
    | none => exact absurd (mem_death_of_next gives) alive
    | some r =>
      by_cases last : r.isLast = true
      · refine ⟨[], r, ⟨List.forall_mem_nil _, last⟩, ?_⟩
        intro n enough
        obtain ⟨n, rfl⟩ :=
          Nat.exists_eq_add_one_of_ne_zero (Nat.ne_zero_of_lt enough)
        simp [results, turns, gives, last]
      · -- a token takes a byte of what is to come
        have more : r.isLast = false := by simpa using last
        have fewer := (advances_next settled gives more).1
        obtain ⟨before, final, ⟨going, ends⟩, same⟩ :=
          ih _ (bytes ▸ fewer) (settled_next settled)
            (not_mem_death_next alive) rfl
        refine ⟨r :: before, final,
          ⟨List.forall_mem_cons.mpr ⟨more, going⟩, ends⟩, ?_⟩
        intro n enough
        obtain ⟨n, rfl⟩ :=
          Nat.exists_eq_add_one_of_ne_zero (Nat.ne_zero_of_lt enough)
        have others : l.results (n + 1) = some r :: l.next.lexer.results n := by
          simp [results, turns, gives, more]
        rw [others, same n (by omega)]
        rfl

/-- The run of a lexer goes up to a last result, which is repeated to those who
go on asking. -/
theorem exists_run (settled : l.Settled) (alive : Chunk.death ∉ l.source) :
    ∃ before last, l.run = before ++ [last]
      ∧ ((∀ r ∈ before, r.isLast = false) ∧ last.isLast = true)
      ∧ ∀ n, l.enoughTurns ≤ n → ∃ k,
      l.answers n = l.run ++ List.replicate k last := by
  obtain ⟨before, last, shape, same⟩ := exists_results settled alive
  have whole : l.run = before ++ [last] := by
    rw [run, same _ l.pending_lt_enoughTurns]
    simp
  refine ⟨before, last, whole, shape, ?_⟩
  intro n enough
  have results := same n (Nat.lt_of_lt_of_le l.pending_lt_enoughTurns enough)
  refine ⟨n - (l.results n).length, ?_⟩
  rw [answers_eq_results, results, whole]
  simp [Function.comp_def]

/-- A token has the kind of one of the lexicon's groups. -/
theorem kind_of_next (settled : l.Settled) {token : StreamToken}
    (gives : l.next.result = some (.ok token)) :
    ∃ group, (group, token.kind) ∈ l.lexicon.tokenGroups := by
  obtain ⟨pieces, accounts, results, -⟩ := exists_accounts_next settled
  have one : Piece.results l.position pieces = [.ok token] := by
    rw [results, gives]
    rfl
  have given : .ok token ∈ Piece.results l.position pieces :=
    one ▸ List.mem_singleton.mpr rfl
  obtain ⟨piece, mem, role⟩ := Piece.role_of_mem_results given
  obtain ⟨text, m, -, -, named, -⟩ :=
    (accounts.judged piece mem).2 (by rw [role]; nofun)
  rw [role, Lexicon.classify] at named
  split at named
  · next group kind found =>
    cases named
    exact ⟨group, List.mem_of_find?_eq_some found⟩
  · split at named
    · cases named
    · split at named
      · split at named
        · cases named
        · cases named
      · cases named

theorem kind_of_mem_results (settled : l.Settled) {token : StreamToken}
    {n : Nat} (mem : some (.ok token) ∈ l.results n) :
    ∃ group, (group, token.kind) ∈ l.lexicon.tokenGroups := by
  induction n generalizing l with
  | zero => cases mem
  | succ n ih =>
    cases gives : l.next.result with
    | none => simp [results, turns, gives] at mem
    | some r =>
      by_cases last : r.isLast = true
      · have only : l.results (n + 1) = [some r] := by
          simp [results, turns, gives, last]
        rw [only, List.mem_singleton] at mem
        exact kind_of_next settled (gives.trans mem.symm)
      · have others : l.results (n + 1) = some r :: l.next.lexer.results n := by
          simp [results, turns, gives, last]
        rw [others] at mem
        rcases List.mem_cons.mp mem with here | mem
        · exact kind_of_next settled (gives.trans here.symm)
        · obtain ⟨_, accounts, -⟩ := exists_accounts_next settled
          exact accounts.lexicon ▸ ih (settled_next settled) mem

theorem kind_of_mem_run (settled : l.Settled) {token : StreamToken}
    (mem : .ok token ∈ l.run) :
    ∃ group, (group, token.kind) ∈ l.lexicon.tokenGroups := by
  obtain ⟨r, given, rfl⟩ := List.mem_filterMap.mp mem
  exact kind_of_mem_results settled given

end Lexer

/-- Whatever the order of the steps of a worker and its consumer, the results
that the consumer gets are those of the run of the lexer, the last of which is
repeated. -/
theorem Session.exists_received_prefix {l : Lexer} (settled : l.Settled)
    (alive : Chunk.death ∉ l.source) {capacity : Nat} {events : List Event}
    {s : Session} (steps : Run (new l capacity) events s) :
    ∃ k last, last ∈ l.run.getLast? ∧
      received events <+: l.run ++ List.replicate k last := by
  obtain ⟨before, last, whole, -, answers⟩ := Lexer.exists_run settled alive
  obtain ⟨k, same⟩ :=
    answers ((received events).length + l.enoughTurns) (Nat.le_add_left _ _)
  refine ⟨k, last, by simp [whole], ?_⟩
  rw [← same]
  exact ⟨_, (steps.due l.enoughTurns).symm⟩

end Lexigram
