import Lexigram.Proofs.Lexis.Acceptance

/-!
Sequences of patterns. The fragment of a rule that is one sequence of patterns
matches the texts that can be cut into pieces, one for each pattern, which that
pattern matches as a whole (`Grammar.sequence_concatenates`). The patterns stand
side by side as they are written, so that flags which a pattern sets for what is
behind would hold in the next one too: all but the last have to leave them as
they are. A comment at the end of the last would go on behind it: the last has
to be accepted in a group as well. Neither condition can be left out
(`flagAhead_commentBehind_leak`).
-/

namespace Lexigram

open Pattern (Compiled IsPattern SpellsLast SpellsRun)

namespace Pattern

/-- Whether a pattern can be one of a sequence: it is read by itself, names no
group, looks at nothing around it and has no alternatives outside of groups. -/
def IsLink (pattern : String) : Prop :=
  ∃ q, IsPattern pattern.toList q ∧ q.names = [] ∧ q.branches.close.anchorFree ∧
    q.branches.finished = []

/-- Whether a pattern ends with the flags that patterns start with. -/
def KeepsFlags (pattern : String) : Prop :=
  ∃ q, IsPattern pattern.toList q ∧ q.flags = .initial

theorem IsPattern.unique {cs : List Char} {q r : Progress} (h : IsPattern cs q)
    (h' : IsPattern cs r) : q = r :=
  Except.ok.inj (h.reads.readPattern_eq.symm.trans h'.reads.readPattern_eq)

instance : DecidablePred IsLink :=
  fun _ => decidable_of_iff _ exists_isPattern_iff.symm

instance : DecidablePred KeepsFlags :=
  fun _ => decidable_of_iff _ exists_isPattern_iff.symm

variable {pattern : String}

/-- A pattern at the end of a sequence has to be accepted between anchors, as it
may end in a comment. -/
theorem IsLink.spellsLast (link : IsLink pattern)
    (accepted : IsAccepted (anchored pattern)) :
    SpellsLast (spliced pattern.toList) (wholeMatches pattern) := by
  obtain ⟨q, own, nameless, free, bare⟩ := link
  obtain ⟨c, ok⟩ := accepted
  obtain ⟨e, read, -⟩ := Compiled.ofText?_eq_ok_iff_exists.mp ok
  rw [toList_anchored] at read
  have enclosable := own.enclosable read
  have last : SpellsLast pattern.toList (wholeMatches pattern) :=
    ⟨q, enclosable, nameless, free, bare,
      (enclosable.wholeMatches_eq free).symm⟩
  rw [spliced]
  split
  · exact last.wrapped.last
  · exact last

theorem IsLink.spellsRun (link : IsLink pattern) (keeps : KeepsFlags pattern) :
    SpellsRun (spliced pattern.toList) (wholeMatches pattern) := by
  obtain ⟨q, own, nameless, free, bare⟩ := link
  obtain ⟨r, own', flags⟩ := keeps
  cases own.unique own'
  have part : IsPart pattern.toList q := ⟨own, flags, nameless, free⟩
  have splices : Splices pattern.toList (wholeMatches pattern) :=
    ⟨q, part, fun some => absurd bare some,
      (part.enclosable.wholeMatches_eq free).symm⟩
  exact splices.spliced

end Pattern

/-- The words of a product of languages are those that can be cut into words of
each of them. -/
theorem mem_prod_iff {α : Type} {ls : List (Language α)} {text : List α} :
    text ∈ ls.prod ↔ ∃ pieces, List.Forall₂ (fun l piece => piece ∈ l) ls
      pieces ∧ pieces.flatten = text := by
  induction ls generalizing text with
  | nil =>
    rw [List.prod_nil, Language.mem_one]
    simp only [List.forall₂_nil_left_iff, exists_eq_left, List.flatten_nil]
    exact eq_comm
  | cons l ls ih =>
    rw [List.prod_cons, Language.mem_mul]
    simp only [ih, List.forall₂_cons_left_iff]
    constructor
    · intro h
      obtain ⟨piece, first, _, ⟨pieces, others, rfl⟩, rfl⟩ := h
      exact ⟨piece :: pieces, ⟨piece, pieces, first, others, rfl⟩, rfl⟩
    · intro h
      obtain ⟨_, ⟨piece, pieces, first, others, rfl⟩, rfl⟩ := h
      exact ⟨piece, first, _, ⟨pieces, others, rfl⟩, rfl⟩

/-- Patterns of which all but the last leave the flags as they are, spliced into
a sequence. -/
theorem Token.exists_fragmentAll {expand : Expansion}
    {ts : Alternative SymbolId} {ps : List String}
    (made : List.Forall₂ (fun t p => t.fragment expand = .ok p.toList) ts ps)
    (links : ∀ p ∈ ps, Pattern.IsLink p)
    (keeps : ∀ p ∈ ps.dropLast, Pattern.KeepsFlags p)
    (last : ∀ p ∈ ps.getLast?, Pattern.IsAccepted (anchored p)) :
    ∃ cs, fragmentAll expand true ts = .ok cs ∧
      SpellsLast cs (ps.map Pattern.wholeMatches).prod := by
  induction made with
  | nil => exact ⟨[], rfl, SpellsRun.nil.last⟩
  | @cons t p ts ps first others ih =>
    obtain ⟨link, links⟩ := List.forall_mem_cons.mp links
    cases ps with
    | nil =>
      cases others
      refine ⟨_, fragmentAll_cons_eq_ok.mpr ⟨_, [], first, rfl, rfl⟩, ?_⟩
      simpa using link.spellsLast (last p rfl)
    | cons p' ps =>
      rw [List.dropLast_cons_cons, List.forall_mem_cons] at keeps
      obtain ⟨cs, made, spells⟩ :=
        ih links keeps.2 (fun p mem => last p (by simpa using mem))
      exact ⟨_, fragmentAll_cons_eq_ok.mpr ⟨_, cs, first, made, rfl⟩,
        (link.spellsRun keeps.1).append_last spells⟩

namespace Grammar

/-- Whether a token stands for one pattern: a literal, or a reference to a rule
that is one literal. -/
inductive StandsFor (g : Grammar) : Token SymbolId → String → Prop
  | literal (p : String) : StandsFor g (.literal p) p
  | reference {t : SymbolId} {p : String}
      (rule : g.rule? t = some [[.literal p]]) : StandsFor g (.reference t) p

variable {g : Grammar} {id : SymbolId} {ts : Alternative SymbolId}
  {ps : List String}

theorem exists_rule_of_standsFor (stands : List.Forall₂ g.StandsFor ts ps) :
    ∀ t ∈ Token.targets ts, ∃ p, g.rule? t = some [[.literal p]] := by
  induction stands with
  | nil => exact List.forall_mem_nil _
  | cons first others ih =>
    cases first with
    | literal p => simpa using ih
    | reference rule =>
      rw [Token.targets_reference]
      exact List.forall_mem_cons.mpr ⟨⟨_, rule⟩, ih⟩

section

variable (rule : g.rule? id = some [ts]) (several : 2 ≤ ts.length)
  (stands : List.Forall₂ g.StandsFor ts ps)
include rule several

theorem ne_of_rule_literal {t : SymbolId} {p : String}
    (single : g.rule? t = some [[.literal p]]) : t ≠ id := by
  intro same
  rw [same, rule] at single
  cases single
  simp at several

include stands

/-- The tokens of the sequence become the patterns they stand for. -/
theorem fragments_of_standsFor :
    List.Forall₂ (fun t p => t.fragment (g.expansion [id] id) = .ok p.toList) ts
      ps := by
  refine stands.imp fun t p h => ?_
  cases h with
  | literal p => rfl
  | @reference t p single =>
    have fresh : [id].contains t = false := by
      simpa using ne_of_rule_literal rule several single
    rw [Token.fragment, expansion_of_isSome (by rw [single]; rfl),
      fragmentFrom_eq single fresh]
    rfl

/-- The fragment of the rule is that of the sequence in a group. -/
theorem fragment_of_sequence {cs : List Char}
    (made : Token.fragmentAll (g.expansion [id] id) true ts = .ok cs) :
    g.fragment id = .ok (wrapped cs) := by
  have long : singleLiteral? [ts] = none := by
    cases single : singleLiteral? [ts] with
    | none => rfl
    | some p =>
      cases singleLiteral?_eq_some_iff.mp single
      simp at several
  have absent : id ∉ ruleTargets [ts] := by
    intro mem
    obtain ⟨p, single⟩ :=
      exists_rule_of_standsFor stands id (by simpa [ruleTargets] using mem)
    exact ne_of_rule_literal rule several single rfl
  have choice : choiceFragment (g.expansion [id] id) [ts] = .ok cs := by
    have all : decide (ts.length > 1) = true := decide_eq_true several
    rw [choiceFragment, List.mapM_cons, Alternative.fragment, all, made]
    show Except.ok (['|'].intercalate [cs]) = _
    simp
  rw [fragment, fragmentFrom_eq rule rfl, ruleFragment, long,
    repetitionParts?_eq_none absent]
  show (choiceFragment _ [ts] >>= fun whole => pure (wrapped whole)) = _
  rw [choice]
  rfl

end

/-- **A sequence of patterns means their concatenation.** Take a rule that is
one sequence of several tokens, each a literal or a reference to a rule that is
one literal. Each of the patterns is read by itself, names no group, looks at
nothing around it and has no alternatives outside of groups; all but the last
end with the flags that patterns start with, and the last is accepted between
anchors. Then the rule's fragment matches as a whole exactly the texts that can
be cut into pieces, one after the other, that the patterns match as a whole. -/
theorem sequence_concatenates (rule : g.rule? id = some [ts])
    (several : 2 ≤ ts.length) (stands : List.Forall₂ g.StandsFor ts ps)
    (links : ∀ p ∈ ps, Pattern.IsLink p)
    (keeps : ∀ p ∈ ps.dropLast, Pattern.KeepsFlags p)
    (last : ∀ p ∈ ps.getLast?, Pattern.IsAccepted (anchored p)) :
    ∃ fragment whole, g.fragmentText id = .ok fragment ∧
      Compiled.ofText? (anchored fragment) = .ok whole ∧
      ∀ text, whole.matchesIn text = true ↔
        ∃ pieces, List.Forall₂ (fun p piece => piece ∈ Pattern.wholeMatches p)
        ps pieces ∧ pieces.flatten = text := by
  obtain ⟨cs, made, spells⟩ := Token.exists_fragmentAll
    (fragments_of_standsFor rule several stands) links keeps last
  have fragment : g.fragmentText id = .ok (String.ofList (wrapped cs)) := by
    rw [fragmentText, fragment_of_sequence rule several stands made]
    rfl
  have spells : Pattern.Spells (String.ofList (wrapped cs)).toList
      (ps.map Pattern.wholeMatches).prod := by
    rw [String.toList_ofList]
    exact spells.wrapped.spells
  obtain ⟨compiled, ok, words⟩ := spells.whole
  refine ⟨_, compiled, fragment, ok, fun text => ?_⟩
  rw [words text, mem_prod_iff]
  simp only [List.forall₂_map_left_iff]

end Grammar

/-- Literals and references in sequence, the last of which sets a flag. -/
def unitPrices : Grammar where
  symbols := [⟨"price", false⟩, ⟨"digits", false⟩]
  rules :=
    [(0, [[.reference 1, .literal "[.,]", .reference 1, .literal "(?i)eur"]]),
      (1, [[.literal "[0-9]+?"]])]
  parameters := []
  start := none

theorem unitPrices_concatenate :
    ∃ fragment whole, unitPrices.fragmentText 0 = .ok fragment ∧
      Compiled.ofText? (anchored fragment) = .ok whole ∧
      ∀ text, whole.matchesIn text = true ↔
        ∃ pieces, List.Forall₂ (fun p piece => piece ∈ Pattern.wholeMatches p)
          ["[0-9]+?", "[.,]", "[0-9]+?", "(?i)eur"] pieces ∧
          pieces.flatten = text := by
  have digits : unitPrices.StandsFor (.reference 1) "[0-9]+?" := .reference rfl
  have rule : unitPrices.rule? 0 = some
    [[.reference 1, .literal "[.,]", .reference 1, .literal "(?i)eur"]] := rfl
  refine Grammar.sequence_concatenates rule (by decide) ?_ (by decide +kernel)
    (by decide +kernel) ?_
  · exact .cons digits
      (.cons (.literal _) (.cons digits (.cons (.literal _) .nil)))
  · intro p mem
    cases mem
    show ∃ c, Compiled.ofText? (anchored "(?i)eur") = .ok c
    decide +kernel

/-- A sequence that sets a flag in front of its end. -/
def flagAhead : Grammar where
  symbols := [⟨"a", false⟩]
  rules := [(0, [[.literal "(?i)a", .literal "b"]])]
  parameters := []
  start := none

theorem mem_wholeMatches_iff {pattern : String} {text : List UInt8} :
    text ∈ Pattern.wholeMatches pattern ↔
      (Compiled.ofText? (anchored pattern)).toOption.any (·.matchesIn text)
      = true :=
  toOption_any_iff.symm

/-- The text `aB` does not come in pieces that the two patterns match. -/
theorem not_pieces_flagAhead :
    ¬ ∃ pieces, List.Forall₂ (fun p piece => piece ∈ Pattern.wholeMatches p)
      ["(?i)a", "b"] pieces ∧
      pieces.flatten = [97, 66] := by
  intro h
  obtain ⟨pieces, all, whole⟩ := h
  cases all with
  | @cons _ front _ pieces first others =>
  cases others with
  | @cons _ back _ pieces second others =>
  cases others
  -- the second pattern matches no end of the text
  have none : ∀ n ≤ 2, [97, 66].drop n ∉ Pattern.wholeMatches "b" := by
    simp only [mem_wholeMatches_iff]
    decide +kernel
  have cut : front ++ back = [97, 66] := by simpa using whole
  refine none front.length ?_ ?_
  · have := congrArg List.length cut
    simp at this
    omega
  · rw [← cut, List.drop_left]
    exact second

/-- A sequence that ends in a comment. -/
def commentBehind : Grammar where
  symbols := [⟨"a", false⟩]
  rules := [(0, [[.literal "a", .literal "(?x)b #"]])]
  parameters := []
  start := none

/-- A flag holds in the pattern behind it too, so that the sequence matches a
text which is no concatenation. A comment takes the parenthesis behind it, so
that the sequence is no pattern, though the text `ab` is a concatenation. -/
theorem flagAhead_commentBehind_leak :
    (flagAhead.rule? 0 = some [[.literal "(?i)a", .literal "b"]] ∧
      (∀ p ∈ ["(?i)a", "b"], Pattern.IsLink p ∧
        Pattern.IsAccepted (anchored p)) ∧
        ∃ fragment whole, flagAhead.fragmentText 0 = .ok fragment ∧
          Compiled.ofText? (anchored fragment) = .ok whole ∧
          whole.matchesIn [97, 66] = true ∧
            ¬ ∃ pieces, List.Forall₂ (fun p piece => piece
              ∈ Pattern.wholeMatches p) ["(?i)a", "b"] pieces ∧
              pieces.flatten = [97, 66]) ∧
      commentBehind.rule? 0 = some [[.literal "a", .literal "(?x)b #"]] ∧
        (∀ p ∈ ["a", "(?x)b #"], Pattern.IsLink p) ∧ Pattern.KeepsFlags "a" ∧
        [97] ∈ Pattern.wholeMatches "a" ∧
          (∃ own, Compiled.ofText? "(?x)b #" = .ok own ∧
            (own.search? [98]).map (fun m => (m.start, m.stop)) = some (0, 1)) ∧
            ∃ fragment, commentBehind.fragmentText 0 = .ok fragment ∧
            ¬ Pattern.IsAccepted fragment ∧
              ¬ Pattern.IsAccepted (anchored fragment) := by
  constructor
  · have accepted : ∀ p ∈ ["(?i)a", "b"], Pattern.IsAccepted (anchored p) := by
      show ∀ p ∈ ["(?i)a", "b"], ∃ c, Compiled.ofText? (anchored p) = .ok c
      decide +kernel
    have links : ∀ p ∈ ["(?i)a", "b"], Pattern.IsLink p := by decide +kernel
    have fragment : flagAhead.fragmentText 0 = .ok "(?:(?i)ab)" := by
      decide +kernel
    obtain ⟨whole, compiled, matched⟩ : ∃ whole,
        Compiled.ofText? (anchored "(?:(?i)ab)") = .ok whole ∧
        whole.matchesIn [97, 66] = true := ⟨_, rfl, by decide +kernel⟩
    exact ⟨rfl, fun p mem => ⟨links p mem, accepted p mem⟩, _, whole, fragment,
      compiled, matched, not_pieces_flagAhead⟩
  · have links : ∀ p ∈ ["a", "(?x)b #"], Pattern.IsLink p := by decide +kernel
    have keeps : Pattern.KeepsFlags "a" := by decide +kernel
    have front : [97] ∈ Pattern.wholeMatches "a" :=
      mem_wholeMatches_iff.mpr (by decide +kernel)
    have fragment : commentBehind.fragmentText 0 = .ok "(?:a(?x)b #)" := by
      decide +kernel
    have unclosed : ∀ p ∈ ["(?:a(?x)b #)", anchored "(?:a(?x)b #)"],
        ¬ Pattern.IsAccepted p := by
      show ∀ p ∈ ["(?:a(?x)b #)", anchored "(?:a(?x)b #)"], ¬ ∃ c,
        Compiled.ofText? p = .ok c
      decide +kernel
    exact ⟨rfl, links, keeps, front, ⟨_, rfl, by decide +kernel⟩, _, fragment,
      unclosed _ (by simp), unclosed _ (by simp)⟩

end Lexigram
