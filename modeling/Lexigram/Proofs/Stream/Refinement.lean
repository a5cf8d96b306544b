import Lexigram.Proofs.Stream.Simulation

/-!
Streaming refines lexing all the input at once, for lexicons whose matches do
not change once they stop before the end of the input so far. What an error
quotes of unmatchable input is left out: it depends on what has been read.
-/

namespace Lexigram

/-- A result without what it quotes of unmatchable input. -/
def LexResult.withoutSnippet : LexResult → LexResult
  | .error (.unmatchable p _) => .error (.unmatchable p "")
  | r => r

namespace Lexicon

variable {c : Lexicon} {p : Position}

/-- A verdict so far is the final one, whatever follows. -/
theorem finalVerdict_of_stable (stable : c.PrefixStable)
    {seen rest : List UInt8} {v : Verdict}
    (decided : c.verdictSoFar? seen = some v)
    (nonempty : 0 < (seen ++ rest).length) :
    c.finalVerdict (seen ++ rest) nonempty = v := by
  obtain ⟨m, found, inside, judged⟩ := verdictSoFar?_eq_some.mp decided
  have again : c.master.search? (seen ++ rest) = some m := by
    apply stable (seen ++ rest) seen.length m
    · rw [List.take_left]
      exact found
    · rw [List.take_left]
      exact inside
  simp only [finalVerdict, again, judged]

/-- Lexing all the input acts on the verdict so far. -/
theorem lexWhole_of_stable (stable : c.PrefixStable)
    {seen : List UInt8} {v : Verdict} (decided : c.verdictSoFar? seen = some v)
    (rest : List UInt8) :
    c.lexWhole p (seen ++ rest) = v.results p (seen ++ rest) c.lexWhole := by
  have nonempty : 0 < (seen ++ rest).length := by
    rw [List.length_append]
    exact Nat.add_pos_left (length_pos_of_verdictSoFar? decided) _
  rw [lexWhole_of_pos nonempty, finalVerdict_of_stable stable decided nonempty]

/-- Lexing read by read gives what lexing all the input gives, whatever the
reads. -/
theorem lexReads_refines_lexWhole (stable : c.PrefixStable) (p : Position)
    (seen : List UInt8) (reads : List (List UInt8)) :
    (c.lexReads p seen reads).map LexResult.withoutSnippet
      = (c.lexWhole p (seen ++ reads.flatten)).map
      LexResult.withoutSnippet := by
  induction p, seen, reads using reading_induction c with
  | last p seen undecided =>
    rw [lexReads_nil undecided, List.flatten_nil, List.append_nil]
  | read p seen read reads undecided ih =>
    rw [lexReads_cons undecided, ih, List.flatten_cons, List.append_assoc]
  | stop p seen reads decided =>
    rw [lexReads_of_verdict decided, lexWhole_of_stable stable decided]
    rfl
  | pass p seen reads length role pos decided ih =>
    have inside := length_le_of_verdictSoFar? decided
    rw [lexReads_of_verdict decided, lexWhole_of_stable stable decided]
    simp only [Verdict.results, List.map_append,
      ih, List.take_append_of_le_length inside,
      List.drop_append_of_le_length inside]

end Lexicon

namespace Lexer

/-- **A lexer refines lexing all the input at once.** For every input, every
size of the window and every way in which the reads cut the input up, a lexer
gives the results of lexing all the input at once. -/
theorem results_refine_lexWhole {c : Lexicon}
    (stable : c.PrefixStable) {source : Source} {input : List UInt8}
    (delivers : source.delivered = some input) (bufferSize limit : Nat) :
    ((new c source bufferSize).results limit).map
      (Option.map LexResult.withoutSnippet)
      = ((c.lexWhole .start input).take limit).map fun r =>
        some r.withoutSnippet := by
  obtain ⟨reads, brings, same⟩ := exists_reads_new c bufferSize delivers
  have flat : reads.flatten = input :=
    brings.flatten_eq (Window.growth_pos _) delivers
  have refines := c.lexReads_refines_lexWhole stable .start [] reads
  rw [List.nil_append, flat] at refines
  calc ((new c source bufferSize).results limit).map
         (Option.map LexResult.withoutSnippet)
      = (((c.lexReads .start [] reads).map LexResult.withoutSnippet).take
          limit).map some := by
        rw [same limit, List.map_map, ← List.map_take, List.map_map]
        rfl
    _ = ((c.lexWhole .start input).take limit).map fun r =>
        some r.withoutSnippet := by
        rw [refines, ← List.map_take, List.map_map]
        rfl

end Lexer

/-! ## Letters with anything between them -/

/-- The grammar of single letters, with every other byte as white space. -/
def letterwise : Grammar where
  symbols := [⟨"letter", false⟩, ⟨"whitespace", false⟩]
  rules := [(0, [[.literal "(?-u:[a-z])"]]), (1, [[.literal "(?-u:[^a-z])"]])]
  parameters := []
  start := none

namespace letterwise

open Pattern

/-- The letters. -/
def letters : CharSet := .union .nothing (.interval 97 122)

/-- The master pattern of the grammar. -/
def master : Compiled where
  program := #[.split 1 5, .save 2, .byte letters, .save 3, .jump 8, .save 4,
    .byte (.complement letters), .save 5, .accept]
  groups := 3

/-- The first byte is matched, and what follows it has no part in that. -/
theorem search?_master (b : UInt8) (bytes : List UInt8) :
    master.search? (b :: bytes) = some ⟨some (0, 1) :: if letters.contains
      b.toNat then [some (0, 1), none] else [none, some (0, 1)]⟩ := by
  obtain ⟨k, budget⟩ : ∃ k, master.budget (b :: bytes).length = k + 20 := by
    refine ⟨18 * bytes.length + 18, ?_⟩
    simp only [Compiled.budget, master, List.size_toArray,
      List.length_cons, List.length_nil]
    omega
  rw [Compiled.search?, budget, Compiled.searchFrom]
  by_cases letter : letters.contains b.toNat
  · simp [master, run, Thread.step, Thread.goto, Thread.take, letter]
    rfl
  · have other : letters.complement.contains b.toNat := by
      simp [CharSet.contains, letter]
    simp [master, run, Thread.step, Thread.goto, Thread.take, letter, other]
    rfl

theorem prefixStable {c : Lexicon} (h : c.master = master) :
    c.PrefixStable := by
  intro text n m found inside
  rw [h] at found ⊢
  cases view : Text.complete (text.take n) with
  | nil => rw [view] at inside; exact absurd inside (Nat.not_lt_zero _)
  | cons b bytes =>
    have front : b :: bytes <+: text := by
      rw [← view]
      exact (List.take_prefix _ _).trans (List.take_prefix n text)
    obtain ⟨others, rfl⟩ := front
    rw [view, search?_master] at found
    rw [← found]
    exact search?_master b _

theorem exists_lexicon :
    ∃ c, Lexicon.ofGrammar letterwise ⟨false, .default⟩ = .ok c
      ∧ c.master = master ∧ c.tokenGroups = [(1, ⟨0, "letter"⟩)]
      ∧ c.whitespaceGroup = 2 :=
  Lexicon.exists_of_ofGrammar (by decide +kernel)

/-- Two letters with a blank between them, in two reads and a window for one
byte. -/
theorem results_two_letters :
    ∃ c, Lexicon.ofGrammar letterwise ⟨false, .default⟩ = .ok c ∧ c.PrefixStable
      ∧ Source.delivered [.bytes [97], .bytes [32, 98]] = some [97, 32, 98]
      ∧ ((Lexer.new c [.bytes [97], .bytes [32, 98]] 1).results 4).map
          (Option.map LexResult.withoutSnippet)
        = [some (.ok ⟨⟨0, "letter"⟩, "a"⟩), some (.ok ⟨⟨0, "letter"⟩, "b"⟩),
            some (.error .endOfStream)] := by
  obtain ⟨c, ok, masterEq, groups, whitespace⟩ := exists_lexicon
  have stable := prefixStable masterEq
  have delivers : Source.delivered [.bytes [97], .bytes [32, 98]]
    = some [97, 32, 98] := rfl
  refine ⟨c, ok, stable, delivers, ?_⟩
  rw [Lexer.results_refine_lexWhole stable delivers]
  simp [Lexicon.lexWhole, Lexicon.finalVerdict, Lexicon.verdict,
    Lexicon.classify, masterEq, groups, whitespace, search?_master, Match.start,
    Match.stop, Match.group?, Match.fills, letters, CharSet.contains,
    Role.result?, Text.lossy, Text.decodeLossy_cons_ascii, Text.decodeLossy]
  exact ⟨rfl, rfl, rfl⟩

end letterwise

end Lexigram
