import Lexigram.Proofs.Stream.Refinement

/-!
When the size of the window and the cuts between the reads do not change what a
lexer gives. That is not so for every lexicon: a match that stops before the end
of the bytes seen is taken as final, though more input could have made it
longer. It is so exactly if no such decision changes what comes out in the end.
-/

namespace Lexigram

/-- What is compared of a result: the id and the text of a token, or the kind of
an error and the byte at which it is. -/
inductive Outcome where
  | token (id : SymbolId) (text : String)
  | invalid (offset : Nat)
  | unmatchable (offset : Nat)
  | endOfStream
  | readFailed (kind : FailureKind)
  | workerLost
  deriving Repr, DecidableEq

/-- The outcome when the input starts `n` bytes later. -/
def Outcome.shift (n : Nat) : Outcome → Outcome
  | .invalid offset => .invalid (n + offset)
  | .unmatchable offset => .unmatchable (n + offset)
  | other => other

/-- What is compared of a result. -/
def LexResult.outcome : LexResult → Outcome
  | .ok token => .token token.kind.id token.text
  | .error .endOfStream => .endOfStream
  | .error (.invalidToken p _) => .invalid p.offset
  | .error (.unmatchable p _) => .unmatchable p.offset
  | .error (.readFailed f) => .readFailed f.kind
  | .error .workerLost => .workerLost

/-- What is compared of a list of results. -/
def outcomes (results : List LexResult) : List Outcome :=
  results.map LexResult.outcome

@[simp] theorem outcomes_append (rs ss : List LexResult) :
    outcomes (rs ++ ss) = outcomes rs ++ outcomes ss :=
  List.map_append

theorem LexResult.outcome_withoutSnippet (r : LexResult) :
    r.withoutSnippet.outcome = r.outcome := by
  rcases r with e | token
  · cases e <;> rfl
  · rfl

/-- What a lexer gives, as far as it is compared. -/
def Lexer.outcomes (l : Lexer) (limit : Nat) : List (Option Outcome) :=
  (l.results limit).map (Option.map LexResult.outcome)

namespace Lexicon

variable {c : Lexicon} {p q : Position} {n : Nat}

/-- Whether what lexers of this lexicon give does not depend on the sizes of
their windows and on how their reads cut up the input. -/
def ReadInvariant (c : Lexicon) : Prop :=
  ∀ (input : List UInt8) (source source' : Source) (size size' limit : Nat),
    source.delivered = some input → source'.delivered = some input →
      (Lexer.new c source size).outcomes limit
      = (Lexer.new c source' size').outcomes limit

/-- Whether every verdict on a part of a text that has been seen agrees with
lexing the text in one read: the piece it takes, with what there is to find
behind, comes to the same. -/
def Coherent (c : Lexicon) : Prop :=
  ∀ (text : List UInt8) (n : Nat) (v : Verdict),
    c.verdictSoFar? (text.take n) = some v →
    outcomes (v.results .start text fun p rest => c.lexReads p rest [])
      = outcomes (c.lexReads .start text [])

/-! ## Outcomes at another place -/

theorem offset_past (offset : p.offset = n + q.offset) (bytes : List UInt8) :
    (p.past bytes).offset = n + (q.past bytes).offset := by
  show p.offset + bytes.length = n + (q.offset + bytes.length)
  omega

/-- The results of a verdict are shifted if those behind the piece are. -/
theorem outcomes_results_shift {v : Verdict}
    {bytes : List UInt8} {rest rest' : Position → List UInt8 → List LexResult}
    (offset : p.offset = n + q.offset)
    (behind : ∀ length role pos, v = .piece length role pos →
      outcomes (rest (p.past (bytes.take length)) (bytes.drop length))
          = (outcomes (rest' (q.past (bytes.take length))
          (bytes.drop length))).map (Outcome.shift n)) :
    outcomes (v.results p bytes rest) = (outcomes (v.results q bytes rest')).map
      (Outcome.shift n) := by
  cases v with
  | unmatchable =>
    simp [Verdict.results, outcomes, unmatchableAt, LexResult.outcome,
      Outcome.shift, offset]
  | piece length role pos =>
    have own : outcomes (role.result? p (bytes.take length)).toList
        = (outcomes (role.result? q (bytes.take length)).toList).map
        (Outcome.shift n) := by
      cases role <;> simp [Role.result?, outcomes, LexResult.outcome,
        Outcome.shift, offset]
    simp only [Verdict.results, outcomes_append, List.map_append, own,
      behind length role pos rfl]

theorem outcomes_lexWhole_shift (offset : p.offset = n + q.offset)
    (text : List UInt8) :
    outcomes (c.lexWhole p text) = (outcomes (c.lexWhole q text)).map
      (Outcome.shift n) := by
  induction size : text.length using Nat.strongRecOn generalizing p q text with
  | ind size ih =>
    by_cases nonempty : 0 < text.length
    · rw [lexWhole_of_pos nonempty, lexWhole_of_pos nonempty]
      refine outcomes_results_shift offset fun length role pos _ => ?_
      refine ih _ ?_ (offset_past offset _) _ rfl
      rw [List.length_drop]
      omega
    · cases List.length_eq_zero_iff.mp (Nat.eq_zero_of_not_pos nonempty)
      rw [lexWhole_nil, lexWhole_nil]
      rfl

/-- Lexing depends on the place of the input only in the offsets of errors. -/
theorem outcomes_lexReads_shift (offset : p.offset = n + q.offset)
    (seen : List UInt8) (reads : List (List UInt8)) :
    outcomes (c.lexReads p seen reads)
      = (outcomes (c.lexReads q seen reads)).map (Outcome.shift n) := by
  induction p, seen, reads using reading_induction c generalizing q with
  | last p seen undecided =>
    rw [lexReads_nil undecided, lexReads_nil undecided]
    exact outcomes_lexWhole_shift offset seen
  | read p seen read reads undecided ih =>
    rw [lexReads_cons undecided, lexReads_cons undecided]
    exact ih offset
  | stop p seen reads decided =>
    rw [lexReads_of_verdict decided, lexReads_of_verdict decided]
    exact outcomes_results_shift offset fun _ _ _ eq => by cases eq
  | pass p seen reads length role pos decided ih =>
    rw [lexReads_of_verdict decided, lexReads_of_verdict decided]
    refine outcomes_results_shift offset fun _ _ _ eq => ?_
    cases eq
    exact ih (offset_past offset _)

theorem outcomes_lexReads_start (p : Position) (seen : List UInt8)
    (reads : List (List UInt8)) :
    outcomes (c.lexReads p seen reads)
      = (outcomes (c.lexReads .start seen reads)).map
      (Outcome.shift p.offset) :=
  outcomes_lexReads_shift rfl seen reads

/-! ## Coherent lexicons are read-invariant -/

/-- A coherent lexicon is coherent at every place, and whatever follows the
bytes seen. -/
theorem Coherent.at (coherent : c.Coherent) (p : Position)
    {seen : List UInt8} {v : Verdict} (decided : c.verdictSoFar? seen = some v)
    (rest : List UInt8) :
    outcomes (v.results p (seen ++ rest) fun p rest => c.lexReads p rest [])
      = outcomes (c.lexReads p (seen ++ rest) []) := by
  have front : c.verdictSoFar? ((seen ++ rest).take seen.length) = some v := by
    rw [List.take_left]
    exact decided
  rw [outcomes_lexReads_start p, ← coherent _ _ v front]
  exact outcomes_results_shift rfl fun _ _ _ _ =>
    outcomes_lexReads_shift (offset_past rfl _) _ _

/-- For a coherent lexicon the cuts between the reads make no difference. -/
theorem Coherent.outcomes_lexReads (coherent : c.Coherent) (p : Position)
    (seen : List UInt8) (reads : List (List UInt8)) :
    outcomes (c.lexReads p seen reads)
      = outcomes (c.lexReads p (seen ++ reads.flatten) []) := by
  induction p, seen, reads using reading_induction c with
  | last p seen undecided => rw [List.flatten_nil, List.append_nil]
  | read p seen read reads undecided ih =>
    rw [lexReads_cons undecided, ih, List.flatten_cons, List.append_assoc]
  | stop p seen reads decided =>
    rw [lexReads_of_verdict decided, ← coherent.at p decided]
    rfl
  | pass p seen reads length role pos decided ih =>
    have inside := length_le_of_verdictSoFar? decided
    rw [lexReads_of_verdict decided, ← coherent.at p decided]
    simp only [Verdict.results, outcomes_append,
      ih, List.take_append_of_le_length inside,
      List.drop_append_of_le_length inside]

/-- A lexer gives the outcomes of some reads that bring its input. -/
theorem exists_outcomes {source : Source} {input : List UInt8}
    (delivers : source.delivered = some input) (size : Nat) :
    ∃ reads, source.ReadsAs (Window.new size).growth reads ∧
      reads.flatten = input ∧ ∀ limit,
      (Lexer.new c source size).outcomes limit
        = ((outcomes (c.lexReads .start [] reads)).take limit).map some := by
  obtain ⟨reads, brings, same⟩ := Lexer.exists_reads_new c size delivers
  refine ⟨reads, brings, brings.flatten_eq (Window.growth_pos _) delivers,
    fun limit => ?_⟩
  rw [Lexer.outcomes, same limit, outcomes, ← List.map_take,
    List.map_map, List.map_map]
  rfl

/-- A lexicon is read-invariant if what it gives is made up from the input
alone. -/
theorem readInvariant_of_input (whole : List UInt8 → List Outcome)
    (same : ∀ reads, outcomes (c.lexReads .start [] reads)
      = whole reads.flatten) : c.ReadInvariant := by
  intro input source source' size size' limit delivers delivers'
  obtain ⟨reads, -, flat, gives⟩ := exists_outcomes (c := c) delivers size
  obtain ⟨reads', -, flat', gives'⟩ := exists_outcomes (c := c) delivers' size'
  rw [gives limit, gives' limit, same reads, same reads', flat, flat']

theorem readInvariant_of_coherent (coherent : c.Coherent) : c.ReadInvariant :=
  readInvariant_of_input (fun input => outcomes (c.lexReads .start input []))
    (coherent.outcomes_lexReads .start [])

/-! ## Read-invariant lexicons are coherent -/

/-- With a window large enough for them, chunks are read one by one. -/
theorem outcomes_of_chunks {chunks : List (List UInt8)} {size : Nat}
    (fit : ∀ chunk ∈ chunks, chunk ≠ [] ∧
      chunk.length ≤ (Window.new size).growth) (limit : Nat) :
    (Lexer.new c (chunks.map .bytes) size).outcomes limit
      = ((outcomes (c.lexReads .start [] chunks)).take limit).map some := by
  rw [Lexer.outcomes, Lexer.results_of_chunks c fit, outcomes, ← List.map_take,
    List.map_map, List.map_map]
  rfl

/-- A read-invariant lexicon gives the same for all cuts of an input into
chunks. -/
theorem ReadInvariant.outcomes_chunks (invariant : c.ReadInvariant)
    {chunks chunks' : List (List UInt8)}
    (nonempty : ∀ chunk ∈ chunks, chunk ≠ [])
    (nonempty' : ∀ chunk ∈ chunks', chunk ≠ [])
    (flat : chunks.flatten = chunks'.flatten) :
    outcomes (c.lexReads .start [] chunks)
      = outcomes (c.lexReads .start [] chunks') := by
  -- a window so large that every chunk is read at once
  have room (n : Nat) : n ≤ (Window.new (2 * n)).growth := by
    simp only [Window.growth, Window.new]
    omega
  have short {chunk : List UInt8} {chunks : List (List UInt8)}
      (mem : chunk ∈ chunks) :
      chunk.length ≤ (Window.new (2 * chunks.flatten.length)).growth :=
    Nat.le_trans (List.Sublist.length_le (List.sublist_flatten_of_mem mem))
      (room _)
  have takes (limit : Nat) :
      ((outcomes (c.lexReads .start [] chunks)).take limit).map some
        = ((outcomes (c.lexReads .start [] chunks')).take limit).map some := by
    rw [← outcomes_of_chunks fun chunk mem => ⟨nonempty chunk mem, short mem⟩,
      ← outcomes_of_chunks fun chunk mem => ⟨nonempty' chunk mem, short mem⟩]
    apply invariant chunks.flatten
    · exact Source.delivered_chunks nonempty
    · rw [flat]
      exact Source.delivered_chunks nonempty'
  have all := takes ((outcomes (c.lexReads .start [] chunks)).length
    + (outcomes (c.lexReads .start [] chunks')).length)
  rw [List.take_of_length_le (Nat.le_add_right _ _),
    List.take_of_length_le (Nat.le_add_left _ _)] at all
  exact (List.map_inj_right fun _ _ => Option.some.inj).mp all

/-- For a read-invariant lexicon one cut makes no difference. -/
theorem ReadInvariant.outcomes_cut (invariant : c.ReadInvariant) (p : Position)
    (front : List UInt8) {back : List UInt8} (nonempty : back ≠ []) :
    outcomes (c.lexReads p front [back])
      = outcomes (c.lexReads p (front ++ back) []) := by
  by_cases empty : front = []
  · rw [empty, lexReads_cons verdictSoFar?_nil]
  · have same : outcomes (c.lexReads .start [] [front, back])
        = outcomes (c.lexReads .start [] [front ++ back]) := by
      apply invariant.outcomes_chunks
      · simp [empty, nonempty]
      · simp [empty]
      · simp
    rw [lexReads_cons verdictSoFar?_nil,
      lexReads_cons verdictSoFar?_nil] at same
    rw [outcomes_lexReads_start p, outcomes_lexReads_start p,
      ← List.nil_append front, same]
    rfl

theorem coherent_of_readInvariant (invariant : c.ReadInvariant) :
    c.Coherent := by
  intro text n v decided
  by_cases all : text.drop n = []
  · -- all of the text has been seen, and the single read decides the same
    have whole : text.take n = text :=
      List.take_of_length_le (List.drop_eq_nil_iff.mp all)
    rw [whole] at decided
    rw [lexReads_of_verdict decided]
  · -- one read up to `n` and one behind it, before and after the piece
    have split : text.take n ++ text.drop n = text :=
      List.take_append_drop n text
    have cut := invariant.outcomes_cut .start (text.take n) all
    rw [split] at cut
    rw [← cut, lexReads_of_verdict decided]
    cases v with
    | unmatchable => rfl
    | piece length role pos =>
      have inside := length_le_of_verdictSoFar? decided
      have front : text.take length = (text.take n).take length := by
        rw [← List.take_append_of_le_length inside, split]
      have behind : text.drop length
          = (text.take n).drop length ++ text.drop n := by
        rw [← List.drop_append_of_le_length inside, split]
      simp only [Verdict.results, outcomes_append, front, behind,
        invariant.outcomes_cut _ _ all]

/-- **How the input is read makes no difference to coherent lexicons alone.**
The size of the window and the cuts between the reads make no difference to the
results exactly if the lexicon is coherent. -/
theorem readInvariant_iff_coherent (c : Lexicon) :
    c.ReadInvariant ↔ c.Coherent :=
  ⟨coherent_of_readInvariant, readInvariant_of_coherent⟩

/-- Prefix-stable lexicons are read-invariant: their decisions are those on all
the input. -/
theorem PrefixStable.readInvariant (stable : c.PrefixStable) :
    c.ReadInvariant := by
  apply readInvariant_of_input fun input => outcomes (c.lexWhole .start input)
  intro reads
  have refines :=
    congrArg outcomes (c.lexReads_refines_lexWhole stable .start [] reads)
  simpa [outcomes, Function.comp_def, LexResult.outcome_withoutSnippet]
    using refines

end Lexicon

/-! ## A token with an optional tail -/

/-- The grammar of one token, an `a` that `bcd` may follow. -/
def optionalTail : Grammar where
  symbols := [⟨"a", false⟩]
  rules := [(0, [[.literal "a(bcd)?"]])]
  parameters := []
  start := none

/-- In a window for two bytes the `a` of `abcd` is a token, in one for eight
bytes all of it is. -/
theorem optionalTail_not_readInvariant :
    ∃ c, Lexicon.ofGrammar optionalTail ⟨false, .default⟩ = .ok c
      ∧ (Lexer.new c [.bytes [97, 98, 99, 100]] 2).outcomes 1
      = [some (.token 0 "a")]
      ∧ (Lexer.new c [.bytes [97, 98, 99, 100]] 8).outcomes 1
      = [some (.token 0 "abcd")]
      ∧ ¬ c.ReadInvariant := by
  obtain ⟨c, ok, early, undecided, final⟩ :
      ∃ c, Lexicon.ofGrammar optionalTail ⟨false, .default⟩ = .ok c
        ∧ c.verdictSoFar? [97, 98]
        = some (.piece 1 (.token ⟨0, "a"⟩) (by decide))
        ∧ c.verdictSoFar? [97, 98, 99, 100] = none
        ∧ c.finalVerdict [97, 98, 99, 100] (by decide)
        = .piece 4 (.token ⟨0, "a"⟩) (by decide) :=
    Lexicon.exists_of_ofGrammar (by decide +kernel)
  have a : Text.lossy [97] = "a" := by
    simp [Text.lossy, Text.decodeLossy_cons_ascii, Text.decodeLossy]
  have abcd : Text.lossy [97, 98, 99, 100] = "abcd" := by
    simp [Text.lossy, Text.decodeLossy_cons_ascii, Text.decodeLossy]
  have small : (Lexer.new c [.bytes [97, 98, 99, 100]] 2).outcomes 1
      = [some (.token 0 "a")] := by
    let l := Lexer.new c [.bytes [97, 98, 99, 100]] 2
    have awake : l.state.Awake := trivial
    have refills : l.Refills := ⟨rfl, .inl rfl⟩
    have outcome : ((Window.new 2).fill [.bytes [97, 98, 99, 100]]).outcome
      = .read 2 := by decide
    have window : ((Window.new 2).fill [.bytes [97, 98, 99, 100]]).window
        = ⟨2, 2, 0, [97, 98], false⟩ := by decide
    have step : (l.filled (l.window.fill l.source)).step
        = .finish 1 (.ok ⟨⟨0, "a"⟩, "a"⟩) := by
      have going : (l.filled (l.window.fill l.source)).window.exhausted
          = false :=
        congrArg Window.exhausted window
      have seen : (l.filled (l.window.fill l.source)).window.filled
          = [97, 98] :=
        congrArg Window.filled window
      have decided : (l.filled (l.window.fill l.source)).lexicon.verdictSoFar?
        [97, 98] = _ := early
      rw [Lexer.step_of_going going, seen, decided]
      simp only [Lexer.act, seen, Role.result?, ← a]
      rfl
    have awake' : (l.filled (l.window.fill l.source)).state.Awake := trivial
    have nonempty : (l.filled (l.window.fill l.source)).window.isEmpty
        = false :=
      congrArg Window.isEmpty window
    show (l.results 1).map _ = _
    rw [Lexer.results_of_refills awake refills outcome,
      Lexer.results_of_finish awake' nonempty step]
    rfl
  have large : (Lexer.new c [.bytes [97, 98, 99, 100]] 8).outcomes 1
      = [some (.token 0 "abcd")] := by
    have fit : ∀ chunk ∈ [([97, 98, 99, 100] : List UInt8)],
        chunk ≠ [] ∧ chunk.length ≤ (Window.new 8).growth := by
      decide
    refine (Lexicon.outcomes_of_chunks fit 1).trans ?_
    rw [Lexicon.lexReads_cons Lexicon.verdictSoFar?_nil,
      List.nil_append, Lexicon.lexReads_nil undecided,
      Lexicon.lexWhole_of_pos (by decide), final]
    simp [Verdict.results, Role.result?, outcomes, LexResult.outcome, abcd]
  refine ⟨c, ok, small, large, fun invariant => ?_⟩
  have delivers : Source.delivered [.bytes [97, 98, 99, 100]]
    = some [97, 98, 99, 100] := rfl
  have same := invariant _ _ _ 2 8 1 delivers delivers
  rw [small, large] at same
  exact absurd same (by decide)

end Lexigram
