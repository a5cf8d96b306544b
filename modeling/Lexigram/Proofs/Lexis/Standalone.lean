import Lexigram.Proofs.Lexis.Acceptance
import Lexigram.Proofs.Lexis.Dispatch
import Lexigram.Proofs.Pattern.Unwrapping

/-!
Fragments by themselves. The fragment of a rule is compiled between anchors and
as a part of the master pattern, never by itself. What can be compiled there is
a pattern by itself, unless it closes a group that it has not opened
(`Lexicon.accepted_alone_iff`): the parenthesis behind a fragment and the anchor
or the bar that follows hide no other fault.
-/

namespace Lexigram

open Pattern (Compiled Expr bind_ok_iff)

/-- A pattern that is accepted between anchors is accepted by itself, unless it
closes a group that it has not opened. -/
theorem Pattern.isAccepted_iff_of_anchored {pattern : String}
    (between : IsAccepted (anchored pattern)) :
    IsAccepted pattern ↔ Expr.ofText? pattern.toList
      ≠ .error .unopenedGroup := by
  constructor
  · intro alone closes
    obtain ⟨own, ok⟩ := alone
    rw [Compiled.ofText?, closes] at ok
    cases ok
  · intro keeps
    obtain ⟨whole, ok⟩ := between
    obtain ⟨e, read, -⟩ := Compiled.ofText?_eq_ok_iff_exists.mp ok
    rw [toList_anchored] at read
    obtain ⟨own, alone⟩ := (ofText?_of_anchored read).resolve_right keeps
    exact ⟨.ofExpr own, Compiled.ofText?_eq_ok_iff_exists.mpr ⟨own, alone, rfl⟩⟩

namespace Lexicon

variable {g : Grammar} {options : LexiconOptions} {c : Lexicon}

/-- The rules for configuration are made of the symbols for it. -/
theorem configuration_of_ofGrammar (made : ofGrammar g options = .ok c) :
    c.configuration.map (·.kind) = g.configurationKinds options.reserved ∧
      ∀ r ∈ c.configuration, g.configurationRule r.kind = .ok r := by
  obtain ⟨p, parts, whole⟩ := bind_ok_iff.mp made
  obtain ⟨master, -, same⟩ := bind_ok_iff.mp whole
  cases same
  obtain ⟨whitespace, -, parts⟩ := bind_ok_iff.mp parts
  obtain ⟨configuration, all, parts⟩ := bind_ok_iff.mp parts
  obtain ⟨rules, -, parts⟩ := bind_ok_iff.mp parts
  dsimp only at parts
  split at parts
  · cases parts
  · obtain ⟨alone, -, same⟩ := bind_ok_iff.mp parts
    cases same
    exact LexicalRule.of_mapM
      (fun _ _ made => (Grammar.of_configurationRule made).1) all

theorem isAccepted_anchored_of_ofGrammar (made : ofGrammar g options = .ok c)
    {r : LexicalRule} (mem : r ∈ c.rules ++ c.configuration) :
    Pattern.IsAccepted (anchored r.fragment) := by
  rcases List.mem_append.mp mem with token | configuration
  · obtain ⟨p, parts, whole⟩ := of_ofGrammar made
    obtain ⟨-, rules, -⟩ := LexiconParts.compile_of_lexicon whole
    exact ⟨r.whole,
      (Grammar.of_tokenRule (parts.rules r (rules ▸ token))).2.2.1⟩
  · have own := (configuration_of_ofGrammar made).2 r configuration
    exact ⟨r.whole, (Grammar.of_configurationRule own).2.2⟩

/-- **Fragments that are no patterns.** The rules of a lexicon are those of the
kinds of tokens and of the symbols for configuration. The fragment of each is
accepted by itself if and only if it does not close a group that it has not
opened, and the pattern of white space always is. -/
theorem accepted_alone_iff (made : ofGrammar g options = .ok c) :
    (c.Lists g options ∧ c.configuration.map (·.kind)
        = g.configurationKinds options.reserved ∧
        ∀ r ∈ c.configuration, g.specialFragment r.kind.id = .ok r.fragment) ∧
      (∀ r ∈ c.rules ++ c.configuration, Pattern.IsAccepted r.fragment ↔
        Expr.ofText? r.fragment.toList ≠ .error .unopenedGroup) ∧
      Pattern.IsAccepted c.whitespace := by
  obtain ⟨kinds, rules⟩ := configuration_of_ofGrammar made
  refine ⟨⟨lists_of_ofGrammar made, kinds,
    fun r mem => (Grammar.of_configurationRule (rules r mem)).2.1⟩,
    fun r mem => Pattern.isAccepted_iff_of_anchored
    (isAccepted_anchored_of_ofGrammar made mem), ?_⟩
  obtain ⟨p, parts, whole⟩ := of_ofGrammar made
  obtain ⟨-, -, white, -⟩ := LexiconParts.compile_of_lexicon whole
  obtain ⟨alone, ok, -⟩ := parts.groups
  exact ⟨alone, white ▸ ok⟩

end Lexicon

/-- A token between delimiters, with a rule for configuration. -/
def delimited : Grammar where
  symbols := [⟨"text", false⟩, ⟨"delim", false⟩]
  rules := [(0, [[.literal "(?x) ' [^']+ '  # between quotes\n"]]),
    (1, [[.literal "(?:,|;)"]])]
  parameters := []
  start := none

theorem delimited_accepted_alone :
    ∃ c, Lexicon.ofGrammar delimited ⟨true, .default⟩ = .ok c ∧
      (c.rules ++ c.configuration).map (·.fragment)
      = ["(?x) ' [^']+ '  # between quotes\n", "(?:,|;)"] ∧
      ∀ r ∈ c.rules ++ c.configuration, Pattern.IsAccepted r.fragment := by
  obtain ⟨c, made, fragments, keeps⟩ : ∃ c,
      Lexicon.ofGrammar delimited ⟨true, .default⟩ = .ok c ∧
      (c.rules ++ c.configuration).map (·.fragment)
      = ["(?x) ' [^']+ '  # between quotes\n", "(?:,|;)"] ∧
      ∀ r ∈ c.rules ++ c.configuration,
      (Expr.ofText? r.fragment.toList).toOption.isSome = true :=
    Lexicon.exists_of_ofGrammar (by decide +kernel)
  refine ⟨c, made, fragments, fun r mem => ?_⟩
  refine ((Lexicon.accepted_alone_iff made).2.1 r mem).mpr fun closes => ?_
  have own := keeps r mem
  rw [closes] at own
  cases own

/-- A token rule whose literal closes the group around it and opens another. -/
def groupClosed : Grammar where
  symbols := [⟨"a", false⟩]
  rules := [(0, [[.literal "a)(?:b"]])]
  parameters := []
  start := none

/-- Its lexicon is made, with the parts of the literal in groups of their
own. -/
theorem groupClosed_not_accepted_alone :
    ∃ c, Lexicon.ofGrammar groupClosed ⟨false, .default⟩ = .ok c ∧
      c.source = "(a)(?:b)|(\\s+)" ∧ ∃ r ∈ c.rules, r.fragment = "a)(?:b" ∧
      ¬ Pattern.IsAccepted r.fragment := by
  obtain ⟨c, made, source, fragments⟩ : ∃ c,
      Lexicon.ofGrammar groupClosed ⟨false, .default⟩ = .ok c ∧
      c.source = "(a)(?:b)|(\\s+)" ∧ c.rules.map (·.fragment) = ["a)(?:b"] :=
    Lexicon.exists_of_ofGrammar (by decide +kernel)
  obtain ⟨r, mem, fragment⟩ :=
    List.mem_map.mp (fragments ▸ List.mem_singleton.mpr rfl)
  refine ⟨c, made, source, r, mem, fragment, ?_⟩
  rw [fragment]
  rintro ⟨own, ok⟩
  have closes : Compiled.ofText? "a)(?:b" = .error .unopenedGroup := rfl
  cases closes.symm.trans ok

end Lexigram
