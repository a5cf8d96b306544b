import Lexigram.Proofs.Lexis.Dispatch
import Lexigram.Proofs.Pattern.Language
import Lexigram.Proofs.Stream.Conservation

/-!
Going on behind errors. With a fallback a lexer passes over what no alternative
of its lexicon matches and reports it, so that nothing is unmatchable and every
input comes to its end (`Lexicon.fallback_recovers`). That takes more than the
check that no alternative matches the empty text: in front of some text a
pattern with an anchor may still match nothing at all
(`boundaryBehind_unmatchable`), and patterns without anchors do not
(`Pattern.consumes_of_anchorFree`).
-/

namespace Lexigram

open Pattern (Compiled Match Progress Expr)

/-! ## Patterns that consume -/

namespace Pattern

/-- Whether a pattern that matches at the front of some text takes something of
it. -/
def Consumes (pattern : String) : Prop :=
  ∀ own, Compiled.ofText? pattern = .ok own → ∀ text m, text ≠ [] →
    own.matchAt? text 0 = some m → m.stop ≠ 0

/-- Whether a pattern has no anchors. -/
def AnchorFree (pattern : String) : Prop :=
  ∀ e, Expr.ofText? pattern.toList = .ok e → e.anchorFree

instance (pattern : String) : Decidable (AnchorFree pattern) :=
  inferInstanceAs (Decidable (∀ e, Expr.ofText? pattern.toList = .ok e →
    e.anchorFree = true))

/-- A pattern without anchors is read alike by itself and between anchors. -/
theorem AnchorFree.exists_expr {pattern : String} {own whole : Compiled}
    (free : AnchorFree pattern) (alone : Compiled.ofText? pattern = .ok own)
    (between : Compiled.ofText? (anchored pattern) = .ok whole) :
    ∃ e : Expr, e.anchorFree = true ∧ own = .ofExpr e ∧
      whole = .ofExpr e.whole := by
  obtain ⟨q, enclosable, rfl, -⟩ := Compiled.enclosable_of_ofText? alone between
  obtain ⟨e, read, rfl⟩ := Compiled.ofText?_eq_ok_iff_exists.mp between
  rw [toList_anchored, ofText?_anchored enclosable] at read
  cases read
  exact ⟨_, free _ (ofText?_eq_ok_iff.mpr ⟨q, enclosable.toIsPattern, rfl⟩),
    rfl, rfl⟩

/-- A pattern without anchors consumes something unless it matches the empty
text. -/
theorem consumes_of_anchorFree {pattern : String}
    {whole : Compiled} (free : AnchorFree pattern)
    (between : Compiled.ofText? (anchored pattern) = .ok whole)
    (nonempty : whole.matchesIn [] = false) :
    Consumes pattern := by
  intro own ok text m _ found stops
  obtain ⟨e, anchorless, rfl, rfl⟩ := free.exists_expr ok between
  obtain ⟨-, here⟩ := Compiled.matches_of_matchAt? (Nat.zero_le _) found
  rw [stops] at here
  rw [Compiled.matchesIn_whole_iff.mpr (Expr.matches_nil_of_matches_self
    anchorless (Nat.zero_le _) here)] at nonempty
  cases nonempty

theorem consumes_errorPattern : Consumes errorPattern := by
  obtain ⟨e, read, free⟩ : ∃ e, Expr.ofText? errorPattern.toList = .ok e ∧
    e.anchorFree = true := ⟨_, rfl, rfl⟩
  obtain ⟨whole, between, nonempty⟩ :
      ∃ whole, Compiled.ofText? (anchored errorPattern) = .ok whole ∧
        whole.matchesIn [] = false := ⟨_, rfl, rfl⟩
  refine consumes_of_anchorFree (fun e' read' => ?_) between nonempty
  rw [read] at read'
  exact Except.ok.inj read' ▸ free

end Pattern

namespace Lexicon

variable {g : Grammar} {options : LexiconOptions} {p : LexiconParts}
  {c : Lexicon}

/-- No alternative in a list matches in a text at a position. -/
def Misses (alternatives : List (Role × String)) (text : List UInt8)
    (offset : Nat) : Prop :=
  ∀ a ∈ alternatives, ∀ own, Compiled.ofText? a.2 = .ok own →
    own.matchAt? text offset = none

/-- How many bytes at the front of a text are taken, and for what: those that
the first alternative to match there matches, or in error any that no
alternative matches at. -/
inductive Takes (c : Lexicon) (text : List UInt8) : (length : Nat) → Role → Prop
  | found {i : Nat} {role : Role} {pattern : String} {own : Compiled}
      {m : Match} (place : c.alternatives[i]? = some (role, pattern))
      (compiled : Compiled.ofText? pattern = .ok own)
      (here : own.matchAt? text 0 = some m)
      (first : Misses (c.alternatives.take i) text 0) : Takes c text m.stop role
  | missed {length : Nat}
      (uncovered : ∀ offset < length, Misses c.alternatives text offset) :
    Takes c text length .error

/-- Whether there is something to take of every text, and it is what the lexicon
judges. -/
structure Recovers (c : Lexicon) : Prop where
  fallback : c.hasFallback = true
  found : ∀ text m, text ≠ [] → c.master.search? text = some m →
    ∃ length role pos, c.verdict m = .piece length role pos ∧
    c.Takes text length role
  missed : ∀ text, c.master.search? text = none →
    c.Takes text text.length .error

/-! ## Verdicts of lexicons with a fallback -/

/-- The alternatives of a lexicon that the assembler accepts consume what they
match if they have no anchors. -/
theorem consumes_of_anchorFree (made : ofGrammar g options = .ok c)
    {a : Role × String} (mem : a ∈ c.alternatives)
    (free : Pattern.AnchorFree a.2) : Pattern.Consumes a.2 := by
  obtain ⟨p, parts, whole⟩ := of_ofGrammar made
  obtain ⟨-, rules, white, -⟩ := LexiconParts.compile_of_lexicon whole
  rcases List.mem_append.mp mem with token | other
  · obtain ⟨r, listed, rfl⟩ := List.mem_map.mp token
    obtain ⟨-, -, between, nonempty⟩ :=
      Grammar.of_tokenRule (parts.rules r (rules ▸ listed))
    have bytes : Text.bytesOf "" = [] := by simp [Text.bytesOf]
    rw [LexicalRule.matchesWhole, bytes] at nonempty
    exact Pattern.consumes_of_anchorFree free between nonempty
  · rcases List.mem_cons.mp other with rfl | error
    · obtain ⟨compiled, between, nonempty⟩ :=
        Grammar.of_whitespacePattern (white ▸ parts.whitespace)
      exact Pattern.consumes_of_anchorFree free between nonempty
    · split at error
      · cases List.mem_singleton.mp error
        exact Pattern.consumes_errorPattern
      · cases error

section

/-- Whether the alternatives are what was read of them. -/
def ReadAs (alternatives : List (Role × String)) (qs : List Progress) : Prop :=
  List.Forall₂ (fun a q => Compiled.ofText? a.2
    = .ok (.ofExpr q.branches.close)) alternatives qs

theorem readAs_of_readers {qs : List Progress}
    (readers : List.Forall₂ ReadsTo p.counted qs) (whole : p.lexicon = .ok c) :
    ReadAs c.alternatives qs := by
  rw [ReadAs, ← LexiconParts.map_counted whole, List.forall₂_map_left_iff]
  exact readers.imp fun _ _ reads => reads.enclosable.toIsPattern.compiled

theorem ReadAs.misses_iff {alternatives : List (Role × String)}
    {qs : List Progress} (reads : ReadAs alternatives qs) {text : List UInt8}
    {offset : Nat} :
    Misses alternatives text offset ↔ ∀ q ∈ qs,
      (Compiled.ofExpr q.branches.close).matchAt? text offset = none := by
  induction reads with
  | nil => simp [Misses]
  | cons here _ ih =>
    rw [Misses, List.forall_mem_cons, List.forall_mem_cons, here, ← ih]
    simp [Misses]

/-- A match whose alternative consumes and is known by its group is judged as
what it is. -/
theorem takes_of_search? {qs : List Progress}
    (readers : List.Forall₂ ReadsTo p.counted qs)
    (whole : p.lexicon = .ok c) (fallback : c.hasFallback = true)
    (counts : c.CountsBefore c.alternatives.length)
    (consume : ∀ a ∈ c.alternatives, Pattern.Consumes a.2)
    {text : List UInt8} {m : Match} (nonempty : text ≠ [])
    (found : c.master.search? text = some m) :
    ∃ length role pos, c.verdict m = .piece length role pos ∧
      c.Takes text length role := by
  have reads := readAs_of_readers readers whole
  obtain ⟨i, q, winner, leftmost⟩ :=
    LexiconParts.exists_winner readers whole found
  -- what is in front of a match is an error by itself
  by_cases skipped : 0 < m.start
  · have errs : c.verdict m = .piece m.start .error skipped := by
      rw [verdict, dif_pos skipped, if_pos fallback]
    refine ⟨m.start, .error, skipped, errs, .missed fun offset before => ?_⟩
    exact reads.misses_iff.mpr fun q mem => leftmost q mem offset before
  · have start := Nat.eq_zero_of_not_pos skipped
    rw [start] at winner
    obtain ⟨a, place, compiled⟩ := exists_getElem?_of_forall₂ reads winner.place
    obtain ⟨m', here, groups⟩ := winner.own
    -- the alternative stops where the whole match does
    have stops : m'.stop = m.stop := by
      rw [Match.stop, Match.stop, winner.whole,
        ← groups 0 (Nat.zero_le _), Nat.add_zero]
    have consumed : m.stop ≠ 0 := stops ▸
      consume a (List.mem_of_getElem? place) _ compiled text m' nonempty here
    have before : i ≤ c.alternatives.length :=
      Nat.le_of_lt (List.getElem?_eq_some_iff.mp place).1
    have named : c.classify m = some a.1 := by
      rw [LexiconParts.classify_winner readers whole (start.symm ▸ winner)
        (counts.mono before) (by omega), place]
      rfl
    refine ⟨m.stop, a.1, Nat.pos_of_ne_zero consumed, ?_, ?_⟩
    · rw [verdict, dif_neg skipped, dif_neg consumed]
      split
      · next role known =>
        cases named.symm.trans known
        rfl
      · next unknown =>
        rw [named] at unknown
        cases unknown
    · rw [← stops]
      refine .found place compiled here
        (ReadAs.misses_iff (List.forall₂_take i reads) |>.mpr fun q mem => ?_)
      obtain ⟨j, front, rfl⟩ := List.mem_take_iff_getElem.mp mem
      have inside : j < i ∧ j < qs.length := by omega
      exact winner.first j inside.1 _ (List.getElem?_eq_getElem inside.2)

/-- A lexicon with a fallback recovers if its alternatives consume what they
match and all groups are counted. -/
theorem recovers (made : ofGrammar g options = .ok c)
    (fallback : options.fallback = true)
    (alone : ∀ r ∈ c.rules, ∃ own, Compiled.ofText? r.fragment = .ok own)
    (counts : c.CountsBefore c.alternatives.length)
    (consume : ∀ a ∈ c.alternatives, Pattern.Consumes a.2) :
    c.Recovers := by
  obtain ⟨p, parts, whole⟩ := of_ofGrammar made
  obtain ⟨-, rules, -⟩ := LexiconParts.compile_of_lexicon whole
  obtain ⟨qs, readers⟩ := LexiconParts.exists_readers parts (rules ▸ alone)
  have fallback' : c.hasFallback = true := by
    rw [LexiconParts.hasFallback_eq whole, parts.fallback, fallback]
  refine ⟨fallback', fun text m nonempty found => ?_,
    fun text none => .missed fun offset before => ?_⟩
  · exact takes_of_search? readers whole fallback' counts consume nonempty found
  · refine (readAs_of_readers readers whole).misses_iff.mpr fun q mem => ?_
    have never :=
      (LexiconParts.search?_eq_none_iff readers whole text).mp none q mem
    exact Compiled.search?_eq_none_iff.mp never offset (Nat.le_of_lt before)

end

/-! ## Every text is covered -/

variable {p : Position}

namespace Recovers

theorem verdictSoFar? (recovers : c.Recovers) {seen : List UInt8} {v : Verdict}
    (decided : c.verdictSoFar? seen = some v) :
    ∃ length role pos, v = .piece length role pos ∧
      c.Takes (Text.complete seen) length role := by
  obtain ⟨m, found, inside, rfl⟩ := verdictSoFar?_eq_some.mp decided
  refine recovers.found _ m (fun empty => ?_) found
  rw [empty] at inside
  exact Nat.not_lt_zero _ inside

theorem finalVerdict (recovers : c.Recovers) {text : List UInt8}
    (nonempty : 0 < text.length) :
    ∃ length role pos, c.finalVerdict text nonempty = .piece length role pos ∧
      length ≤ text.length ∧
      c.Takes text length role := by
  simp only [Lexicon.finalVerdict]
  cases found : c.master.search? text with
  | none =>
    exact ⟨_, .error, nonempty, by rw [if_pos recovers.fallback], Nat.le_refl _,
      recovers.missed text found⟩
  | some m =>
    obtain ⟨length, role, pos, judged, takes⟩ :=
      recovers.found text m (List.length_pos_iff.mp nonempty) found
    obtain ⟨ordered, inside⟩ := Compiled.bounds_of_search? found
    exact ⟨length, role, pos, judged,
      (length_le_of_verdict ordered judged).trans inside, takes⟩

end Recovers

/-- Pieces that make up a text, each taken for what its bytes are at the front
of what could be seen of the text. -/
inductive Covers (c : Lexicon) : List UInt8 → List Piece → Prop
  | done : Covers c [] []
  | piece {text seen : List UInt8} {length : Nat} {role : Role}
      {pieces : List Piece} (pos : 0 < length) (inside : length ≤ text.length)
      (front : seen <+: text) (takes : c.Takes seen length role)
      (others : Covers c (text.drop length) pieces) :
      Covers c text (⟨role, text.take length⟩ :: pieces)

theorem Covers.content_eq {text : List UInt8} {pieces : List Piece}
    (covers : c.Covers text pieces) :
    Piece.content pieces = text := by
  induction covers with
  | done => rfl
  | piece _ _ _ _ _ ih =>
    rw [Piece.content, List.flatMap_cons, ← Piece.content, ih]
    exact List.take_append_drop _ _

/-- A whole text is covered by pieces, and their results come before the end of
the stream. -/
theorem Recovers.exists_covers_lexWhole (recovers : c.Recovers) (p : Position)
    (text : List UInt8) :
    ∃ pieces, c.Covers text pieces ∧
      c.lexWhole p text = Piece.results p pieces ++ [.error .endOfStream] := by
  induction size : text.length using Nat.strongRecOn generalizing text p with
  | ind size ih =>
    by_cases nonempty : 0 < text.length
    · obtain ⟨length, role, pos, judged, inside, takes⟩ :=
        recovers.finalVerdict nonempty
      obtain ⟨pieces, covers, same⟩ :=
        ih (text.drop length).length (by rw [List.length_drop]; omega)
          (p.past (text.take length)) (text.drop length) rfl
      refine ⟨_, .piece pos inside (List.prefix_refl _) takes covers, ?_⟩
      rw [lexWhole_of_pos nonempty, judged, Verdict.results, same,
        Piece.results, List.append_assoc]
    · obtain rfl := List.length_eq_zero_iff.mp (Nat.eq_zero_of_not_pos nonempty)
      exact ⟨[], .done, lexWhole_nil⟩

/-- What the reads bring is covered by pieces, and their results come before the
end of the stream. -/
theorem Recovers.exists_covers_lexReads (recovers : c.Recovers) (p : Position)
    (seen : List UInt8) (reads : List (List UInt8)) :
    ∃ pieces, c.Covers (seen ++ reads.flatten) pieces ∧
      c.lexReads p seen reads = Piece.results p pieces
      ++ [.error .endOfStream] := by
  refine reading_induction c (motive := fun p seen reads => ∃ pieces,
    c.Covers (seen ++ reads.flatten) pieces ∧
    c.lexReads p seen reads = Piece.results p pieces ++ [.error .endOfStream])
    ?last ?read ?stop ?pass p seen reads
  case last =>
    intro p seen undecided
    rw [List.flatten_nil, List.append_nil, lexReads_nil undecided]
    exact recovers.exists_covers_lexWhole p seen
  case read =>
    intro p seen read reads undecided ih
    rw [List.flatten_cons, ← List.append_assoc, lexReads_cons undecided]
    exact ih
  case stop =>
    intro p seen reads decided
    obtain ⟨length, role, pos, judged, -⟩ := recovers.verdictSoFar? decided
    cases judged
  case pass =>
    rintro p seen reads length role pos decided ⟨pieces, covers, same⟩
    obtain ⟨_, _, _, judged, takes⟩ := recovers.verdictSoFar? decided
    cases judged
    have inside := length_le_of_verdictSoFar? decided
    have front : Text.complete seen <+: seen ++ reads.flatten :=
      (List.take_prefix _ _).trans (List.prefix_append _ _)
    rw [← List.drop_append_of_le_length inside] at covers
    refine ⟨_, .piece pos (by rw [List.length_append]; omega) front takes
      covers, ?_⟩
    rw [lexReads_of_verdict decided, Verdict.results, same, Piece.results,
      List.take_append_of_le_length inside, List.append_assoc]

end Lexicon

/-! ## Requests never end at unmatchable input -/

/-- Whether a request was answered with the error that the input is
unmatchable. -/
def Turn.Unmatchable (t : Turn) : Prop :=
  ∃ p snippet, t.result = some (.error (.unmatchable p snippet))

namespace Lexer

variable {l : Lexer}

/-- A lexer that acts on a piece does not find it unmatchable. -/
theorem act_piece_ne {length n : Nat} {role : Role} {pos : 0 < length}
    {p : Position} {snippet : String} :
    l.act (.piece length role pos)
      ≠ .finish n (.error (.unmatchable p snippet)) := by
  cases role <;> simp [act, Role.result?]

theorem step_ne_unmatchable (recovers : l.lexicon.Recovers)
    (nonempty : l.window.isEmpty = false) {n : Nat} {p : Position}
    {snippet : String} :
    l.step ≠ .finish n (.error (.unmatchable p snippet)) := by
  have some : 0 < l.window.filled.length := by
    rw [List.length_pos_iff]
    simpa [Window.isEmpty] using nonempty
  cases exhausted : l.window.exhausted with
  | true =>
    obtain ⟨length, role, pos, judged, -⟩ := recovers.finalVerdict some
    rw [step_of_exhausted exhausted some, judged]
    exact act_piece_ne
  | false =>
    rw [step_of_going exhausted]
    cases decided : l.lexicon.verdictSoFar? l.window.filled with
    | none => rintro ⟨⟩
    | some v =>
      obtain ⟨length, role, pos, rfl, -⟩ := recovers.verdictSoFar? decided
      exact act_piece_ne

/-- A scan does not end at unmatchable input. -/
theorem scan_not_unmatchable (recovers : l.lexicon.Recovers) :
    ¬ l.scan.Unmatchable := by
  revert recovers
  refine scan_induction (motive := fun l turn => l.lexicon.Recovers →
    ¬ turn.Unmatchable) ?read ?failure ?death ?skip ?finish ?stop l
  case read => exact fun _ _ _ ih => ih
  case failure => rintro _ _ _ _ ⟨_, _, ⟨⟩⟩
  case death => rintro _ _ _ ⟨_, _, ⟨⟩⟩
  case skip => exact fun _ _ _ _ ih => ih
  case finish =>
    rintro l length result nonempty step recovers ⟨p, snippet, ⟨⟩⟩
    exact step_ne_unmatchable recovers nonempty step
  case stop => rintro _ _ _ _ ⟨_, _, ⟨⟩⟩

theorem after_eq_unmatchable {r : LexResult} {p : Position} {snippet : String}
    (failed : LexerState.after r = .fatalError (.unmatchable p snippet)) :
    r = .error (.unmatchable p snippet) := by
  cases r with
  | ok token => cases failed
  | error e => cases e <;> cases failed; rfl

/-- A request does not end at unmatchable input unless one did before. -/
theorem next_not_unmatchable (recovers : l.lexicon.Recovers)
    (before : ∀ p snippet, l.state ≠ .fatalError (.unmatchable p snippet)) :
    ¬ l.next.Unmatchable ∧ ∀ p snippet,
      l.next.lexer.state ≠ .fatalError (.unmatchable p snippet) := by
  have scanned := scan_not_unmatchable recovers
  by_cases awake : l.state.Awake
  · rw [next_of_awake awake]
    cases result : l.scan.result with
    | none =>
      refine ⟨scanned, fun p snippet failed => ?_⟩
      rw [state_of_scan_result_none result] at failed
      cases failed
    | some r =>
      exact ⟨scanned, fun p snippet failed =>
        scanned ⟨p, snippet, result.trans
          (congrArg some (after_eq_unmatchable failed))⟩⟩
  · obtain ⟨e, stays, state⟩ := next_of_not_awake awake
    rw [stays]
    refine ⟨?_, before⟩
    rintro ⟨p, snippet, ⟨⟩⟩
    obtain ⟨-, other⟩ | state := state
    · cases other
    · exact before p snippet state

/-- No request in a row ends at unmatchable input. -/
theorem requests_not_unmatchable (recovers : l.lexicon.Recovers)
    (settled : l.Settled)
    (before : ∀ p snippet, l.state ≠ .fatalError (.unmatchable p snippet))
    (n : Nat) :
    ∀ turn ∈ l.requests n, ¬ turn.Unmatchable := by
  induction n generalizing l with
  | zero => exact List.forall_mem_nil _
  | succ n ih =>
    obtain ⟨here, later⟩ := next_not_unmatchable recovers before
    obtain ⟨_, accounts, -, -, settled⟩ := exists_accounts_next settled
    exact List.forall_mem_cons.mpr
      ⟨here, ih (accounts.lexicon ▸ recovers) settled later⟩

end Lexer

section

variable {g : Grammar} {options : LexiconOptions} {c : Lexicon}

/-- **With a fallback nothing is unmatchable.** The input of a source whose
reads do not fail comes to its end, covered by tokens, white space and invalid
tokens where no alternative matches. That is so if the fragments are patterns by
themselves whose groups are all counted, and each consumes something of what it
matches, as those without anchors do. -/
theorem Lexicon.fallback_recovers (made : ofGrammar g options = .ok c)
    (fallback : options.fallback = true)
    (alone : ∀ r ∈ c.rules, ∃ own, Compiled.ofText? r.fragment = .ok own)
    (counts : c.CountsBefore c.alternatives.length) (consume :
      ∀ a ∈ c.alternatives, Pattern.AnchorFree a.2 ∨ Pattern.Consumes a.2) :
    (∀ source bufferSize n, ∀ turn ∈ (Lexer.new c source bufferSize).requests n,
      ¬ turn.Unmatchable) ∧
      ∀ (source : Source) (input : List UInt8) (bufferSize : Nat),
      source.delivered = some input →
        ∃ pieces, c.Covers input pieces ∧ Piece.content pieces = input ∧
          ∀ limit, (Lexer.new c source bufferSize).results limit
            = ((Piece.results .start pieces
              ++ [Except.error LexError.endOfStream]).take limit).map some := by
  have recovers : c.Recovers := recovers made fallback alone counts fun a mem =>
    (consume a mem).elim (consumes_of_anchorFree made mem) id
  refine ⟨fun source bufferSize n => ?_,
    fun source input bufferSize delivers => ?_⟩
  · exact Lexer.requests_not_unmatchable (l := .new c source bufferSize)
      recovers ⟨nofun, nofun⟩ nofun n
  · obtain ⟨reads, brings, same⟩ := Lexer.exists_reads_new c bufferSize delivers
    obtain ⟨pieces, covers, results⟩ :=
      recovers.exists_covers_lexReads .start [] reads
    rw [List.nil_append, brings.flatten_eq (Window.growth_pos _) delivers]
      at covers
    exact ⟨pieces, covers, covers.content_eq,
      fun limit => by rw [same limit, results]⟩

end

/-! ## Names and numbers -/

/-- The grammar of names and numbers. -/
def namesAndNumbers : Grammar where
  symbols := [⟨"name", false⟩, ⟨"number", false⟩]
  rules := [(0, [[.literal "[a-z]+"]]), (1, [[.literal "[0-9]+"]])]
  parameters := []
  start := none

/-- A question mark behind a name is passed over, and nothing is unmatchable. -/
theorem namesAndNumbers_recovers :
    ∃ c, Lexicon.ofGrammar namesAndNumbers ⟨true, .default⟩ = .ok c ∧
      (∀ r ∈ c.rules, ∃ own, Compiled.ofText? r.fragment = .ok own) ∧
      c.CountsBefore c.alternatives.length ∧
      (∀ a ∈ c.alternatives, Pattern.AnchorFree a.2 ∨ Pattern.Consumes a.2) ∧
      c.finalVerdict [63] (by decide) = .piece 1 .error (by decide) ∧
      (∀ source bufferSize n,
        ∀ turn ∈ (Lexer.new c source bufferSize).requests n, ¬ turn.Unmatchable)
      ∧ ∃ pieces, c.Covers [97, 63] pieces ∧ Piece.content pieces = [97, 63] ∧
      ∀ limit,
        (Lexer.new c [.bytes [97], .bytes [63]] 1).results limit
          = ((Piece.results .start pieces
            ++ [Except.error LexError.endOfStream]).take limit).map some := by
  obtain ⟨c, made, alone, counts, free, error⟩ :
      ∃ c, Lexicon.ofGrammar namesAndNumbers ⟨true, .default⟩ = .ok c ∧
        (c.rules.all fun r => (Compiled.ofText? r.fragment).toOption.isSome)
        = true ∧ (c.alternatives.all fun a =>
          (Compiled.ofText? a.2).toOption.all
            (·.groups = 1 + Pattern.declaredGroups a.2)) = true ∧
        (c.alternatives.all fun a => (Expr.ofText? a.2.toList).toOption.all
          (·.anchorFree)) = true ∧
        c.finalVerdict [63] (by decide) = .piece 1 .error (by decide) :=
    Lexicon.exists_of_ofGrammar (by decide +kernel)
  have alone' : ∀ r ∈ c.rules, ∃ own, Compiled.ofText? r.fragment = .ok own :=
    fun r mem => exists_ok_of_isSome (List.all_eq_true.mp alone r mem)
  have counts' : c.CountsBefore c.alternatives.length := fun a mem own ok =>
    of_decide_eq_true (of_toOption_all
      (List.all_eq_true.mp counts a (List.mem_of_mem_take mem)) ok)
  have consume : ∀ a ∈ c.alternatives, Pattern.AnchorFree a.2
      ∨ Pattern.Consumes a.2 := fun a mem =>
    .inl fun e ok => of_toOption_all (List.all_eq_true.mp free a mem) ok
  obtain ⟨never, covered⟩ :=
    Lexicon.fallback_recovers made rfl alone' counts' consume
  exact ⟨c, made, alone', counts', consume, error, never,
    covered [.bytes [97], .bytes [63]] [97, 63] 1 rfl⟩

/-! ## A token with a boundary behind it -/

/-- The grammar of one token, letters x up to a boundary of words. -/
def boundaryBehind : Grammar where
  symbols := [⟨"a", false⟩]
  rules := [(0, [[.literal "x*\\b"]])]
  parameters := []
  start := none

/-- The token does not match the empty text, but nothing at all in front of a y,
which is unmatchable then. -/
theorem boundaryBehind_unmatchable :
    ∃ c, Lexicon.ofGrammar boundaryBehind ⟨true, .default⟩ = .ok c ∧
      c.hasFallback = true ∧
      Source.delivered [.bytes [121]] = some [121] ∧
      (∃ turn ∈ (Lexer.new c [.bytes [121]] 4096).requests 1, turn.Unmatchable)
      ∧ (Lexer.new c [.bytes [121]] 4096).results 2
      = [some (.error (.unmatchable .start "y"))] := by
  obtain ⟨c, made, fallback, decided⟩ :
      ∃ c, Lexicon.ofGrammar boundaryBehind ⟨true, .default⟩ = .ok c ∧
        c.hasFallback = true ∧
        c.verdictSoFar? [121] = some .unmatchable :=
    Lexicon.exists_of_ofGrammar (by decide +kernel)
  have text : unmatchableAt .start [121]
      = .error (.unmatchable .start "y") := by
    simp [unmatchableAt, Text.decodeLossy_cons_ascii,
      Text.decodeLossy, snippetLength]
  have reads (limit : Nat) : (Lexer.new c [.bytes [121]] 4096).results limit
      = (([.error (.unmatchable .start "y")] : List LexResult).take limit).map
      some := by
    have fit : ∀ chunk ∈ [([121] : List UInt8)],
        chunk ≠ [] ∧ chunk.length ≤ (Window.new 4096).growth := by
      decide
    refine (Lexer.results_of_chunks c fit limit).trans ?_
    rw [Lexicon.lexReads_cons Lexicon.verdictSoFar?_nil, List.nil_append,
      Lexicon.lexReads_of_verdict decided]
    exact congrArg (fun r => (([r] : List LexResult).take limit).map some) text
  refine ⟨c, made, fallback, rfl,
    ⟨(Lexer.new c [.bytes [121]] 4096).next, .head _, .start, "y", ?_⟩, reads 2⟩
  have first : (Lexer.new c [.bytes [121]] 4096).results 1
      = [(Lexer.new c [.bytes [121]] 4096).next.result] := by
    simp only [Lexer.results, Lexer.turns]
    split <;> simp_all
  exact List.head_eq_of_cons_eq (first.symm.trans (reads 1))

end Lexigram
