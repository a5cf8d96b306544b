import Lexigram.Proofs.Lexis.References
import Lexigram.Proofs.Pattern.Juxtaposition

/-!
Patterns that are accepted. If every literal of a grammar is a pattern by
itself, ends with the flags that it starts with and names no group, then so it
is with everything that is put together of the literals: the fragments of the
rules, whatever rules refer to each other and wherever references are cut off,
the patterns between anchors and the master pattern. A lexicon then fails for
what is wrong with the rules only (`Grammar.patterns_accepted`).
-/

namespace Lexigram

open Pattern (Compiled Composable IsPattern bind_ok_iff mapM_ok_iff)

namespace Pattern

/-- Whether a pattern is read by itself, ends with the flags that patterns start
with and names no group. -/
def IsSelfContained (pattern : String) : Prop :=
  ∃ q, IsPattern pattern.toList q ∧ q.flags = .initial ∧ q.names = []

theorem exists_isPattern_iff {pattern : String} {P : Progress → Prop}
    [DecidablePred P] :
    (∃ q, IsPattern pattern.toList q ∧ P q) ↔
      ((readPattern .initial 0 pattern.toList).toOption.any fun q => decide
        (q.opened = [] ∧ P q)) = true := by
  simp only [toOption_any_iff, decide_eq_true_eq]
  constructor
  · intro h
    obtain ⟨q, own, holds⟩ := h
    exact ⟨q, own.reads.readPattern_eq, own.complete, holds⟩
  · intro h
    obtain ⟨q, read, complete, holds⟩ := h
    exact ⟨q, ⟨reads_of_readPattern read, complete⟩, holds⟩

instance : DecidablePred IsSelfContained :=
  fun _ => decidable_of_iff _ exists_isPattern_iff.symm

theorem IsSelfContained.composable {pattern : String}
    (h : IsSelfContained pattern) : Composable pattern.toList := by
  obtain ⟨q, own, flags, nameless⟩ := h
  exact own.composable flags nameless

/-- Whether a pattern is accepted. -/
def IsAccepted (pattern : String) : Prop :=
  ∃ c, Compiled.ofText? pattern = .ok c

theorem Composable.isAccepted {pattern : String}
    (h : Composable pattern.toList) : IsAccepted pattern := by
  obtain ⟨e, read⟩ := h.exists_ofText?
  exact ⟨.ofExpr e, Compiled.ofText?_eq_ok_iff_exists.mpr ⟨e, read, rfl⟩⟩

theorem Composable.isAccepted_anchored {pattern : String}
    (h : Composable pattern.toList) :
    IsAccepted (Lexigram.anchored pattern) := by
  refine isAccepted ?_
  rw [toList_anchored]
  exact h.anchored

theorem Composable.splicedIf {cs : List Char} (h : Composable cs)
    (several : Bool) :
    Composable (if several then spliced cs else cs) := by
  rw [spliced]
  split
  · split
    · exact h.wrapped
    · exact h
  · exact h

end Pattern

/-! ## Fragments -/

theorem Token.fragmentAll_cons_eq_ok {expand : Expansion} {several : Bool}
    {t : Token SymbolId} {ts : Alternative SymbolId} {cs : List Char} :
    fragmentAll expand several (t :: ts) = .ok cs ↔
      ∃ first rest, fragment expand t = .ok first ∧
        fragmentAll expand several ts = .ok rest ∧
        cs = (if several then spliced first else first) ++ rest := by
  rw [fragmentAll]
  simp only [bind_ok_iff]
  constructor
  · intro made
    obtain ⟨first, here, rest, others, same⟩ := made
    exact ⟨first, rest, here, others, (Except.ok.inj same).symm⟩
  · intro made
    obtain ⟨first, rest, here, others, rfl⟩ := made
    exact ⟨first, here, rest, others, rfl⟩

section

variable {expand : Expansion} (expands : ∀ t cs, expand t = .ok cs →
  Composable cs)
include expands

/-- The fragments of tokens, one after the other. -/
theorem Token.composable_fragmentAll {ts : Alternative SymbolId}
    (literals : ∀ p ∈ patterns ts, Composable p.toList) {several : Bool}
    {cs : List Char} (made : fragmentAll expand several ts = .ok cs) :
    Composable cs := by
  induction ts using sequence_induction generalizing several cs with
  | nil =>
    cases made
    exact .nil
  | literal p ts ih =>
    rw [patterns_literal, List.forall_mem_cons] at literals
    obtain ⟨first, rest, here, others, rfl⟩ := fragmentAll_cons_eq_ok.mp made
    cases here
    exact (literals.1.splicedIf several).append (ih literals.2 others)
  | reference t ts ih =>
    rw [patterns_reference] at literals
    obtain ⟨first, rest, here, others, rfl⟩ := fragmentAll_cons_eq_ok.mp made
    exact ((expands t first here).splicedIf several).append (ih literals others)
  | group m members ts inside ih =>
    rw [patterns_group, List.forall_mem_append] at literals
    obtain ⟨first, rest, here, others, rfl⟩ := fragmentAll_cons_eq_ok.mp made
    obtain ⟨body, within, same⟩ := bind_ok_iff.mp here
    cases same
    exact (((inside literals.1 within).times m).splicedIf several).append
      (ih literals.2 others)

theorem composable_choiceFragment {as : List (Alternative SymbolId)}
    (literals : ∀ p ∈ rulePatterns as, Composable p.toList) {cs : List Char}
    (made : choiceFragment expand as = .ok cs) : Composable cs := by
  obtain ⟨parts, all, same⟩ := bind_ok_iff.mp made
  cases same
  refine .intercalate_bar ?_
  intro part mem
  obtain ⟨a, chosen, fragment⟩ :=
    exists_mem_of_forall₂ (mapM_ok_iff.mp all).flip mem
  refine Token.composable_fragmentAll expands (fun p inside => ?_) fragment
  exact literals p (List.mem_flatMap.mpr ⟨a, chosen, inside⟩)

/-- The fragment of a rule, a repetition or not. -/
theorem composable_ruleFragment {id : SymbolId}
    {as : List (Alternative SymbolId)}
    (literals : ∀ p ∈ rulePatterns as, Composable p.toList) {cs : List Char}
    (made : ruleFragment expand id as = .ok cs) : Composable cs := by
  rw [ruleFragment] at made
  split at made
  · next p single =>
    cases made
    rw [singleLiteral?_eq_some_iff.mp single] at literals
    exact literals p (by simp [rulePatterns])
  · split at made
    · next side repeated base parts =>
      obtain ⟨first, here, made⟩ := bind_ok_iff.mp made
      obtain ⟨second, there, made⟩ := bind_ok_iff.mp made
      obtain ⟨known, known'⟩ := patterns_of_repetitionParts? parts
      have again := (composable_choiceFragment expands
        (fun p mem => literals p (known mem)) here).times .zeroOrMore
      have once := (composable_choiceFragment expands
        (fun p mem => literals p (known' mem)) there).wrapped
      cases side with
      | right =>
        cases made
        exact again.append once
      | left =>
        cases made
        exact once.append again
    · obtain ⟨whole, here, made⟩ := bind_ok_iff.mp made
      cases made
      exact (composable_choiceFragment expands literals here).wrapped

end

namespace Grammar

variable {g : Grammar} (literals : ∀ rule ∈ g.rules, ∀ p ∈ rulePatterns rule.2,
  Pattern.IsSelfContained p)
include literals

/-- What a rule stands for in a fragment, whatever rules are being visited. -/
theorem composable_fragmentFrom {visiting : List SymbolId} {id : SymbolId}
    {cs : List Char} (made : g.fragmentFrom visiting id = .ok cs) :
    Composable cs := by
  induction size : g.unvisited visiting using Nat.strong_induction_on
      generalizing visiting id cs with
  | _ n ih =>
    cases fresh : visiting.contains id with
    | true =>
      rw [fragmentFrom_of_visited fresh] at made
      cases made
      exact .nil
    | false =>
      cases rule : g.rule? id with
      | none =>
        rw [fragmentFrom_of_none rule fresh] at made
        cases made
      | some as =>
        rw [fragmentFrom_eq rule fresh] at made
        refine composable_ruleFragment (fun t ds expanded => ?_)
          (fun p mem => ?_) made
        · cases target : g.rule? t with
          | some as' =>
            rw [expansion_of_isSome (by rw [target]; rfl)] at expanded
            exact ih _ (size ▸ unvisited_cons_lt rule fresh) expanded rfl
          | none =>
            rw [expansion_of_eq_none target] at expanded
            cases expanded
        · exact (literals _ (Table.mem_of_find? rule) p mem).composable

theorem IsFragment.composable {pattern : String} (h : g.IsFragment pattern) :
    Composable pattern.toList := by
  rcases h with rfl | ⟨id, made⟩
  · exact .of_readPattern rfl rfl rfl rfl
  · exact composable_fragmentFrom literals (fragment_of_fragmentText made)

end Grammar

/-! ## Lexicons -/

/-- The faults that are about what rules there are and what they match, not
about how their patterns are written. -/
inductive AssemblyFault.IsOfRules : AssemblyFault → Prop
  | missingSpecialRule (symbol : SymbolId) (name : String) :
      IsOfRules (.missingSpecialRule symbol name)
  | undefinedRule (rule : SymbolId) (name : String) (target : SymbolId)
      (targetName : String) :
      IsOfRules (.undefinedRule rule name target targetName)
  | matchesEmpty (name : String) : IsOfRules (.refused (.matchesEmpty name))
  | noTokenRules : IsOfRules (.refused .noTokenRules)

namespace Grammar

variable {g : Grammar}

/-- The fragment of a rule that is there fails for a reference only. -/
theorem failsAs_fragmentText {id : SymbolId}
    (rule : (g.rule? id).isSome = true) :
    FailsAs AssemblyFault.IsOfRules (g.fragmentText id) := by
  intro e failed
  rcases cases_of_fragmentFrom_eq_error
    (fragment_of_fragmentText_eq_error failed) with ⟨none, -⟩ | ⟨r, t, -, rfl⟩
  · rw [none] at rule
    cases rule
  · exact .undefinedRule ..

variable (literals : ∀ rule ∈ g.rules, ∀ p ∈ rulePatterns rule.2,
  Pattern.IsSelfContained p)
include literals

theorem composable_source {options : LexiconOptions} {parts : LexiconParts}
    (made : parts.MadeOf g options) :
    Composable parts.source.toList := by
  rw [parts.toList_source]
  refine .choiceOf fun cs mem => ?_
  obtain ⟨⟨⟨role, pattern⟩, groups⟩, alternative, rfl⟩ := List.mem_map.mp mem
  rcases List.mem_append.mp alternative with token | other
  · obtain ⟨r, listed, same⟩ := List.mem_map.mp token
    cases same
    exact IsFragment.composable literals
      (.inr ⟨_, (of_tokenRule (made.rules r listed)).2.1⟩)
  · rcases List.mem_cons.mp other with same | error
    · cases same
      exact IsFragment.composable literals
        (isFragment_of_whitespacePattern made.whitespace)
    · split at error
      · cases List.mem_singleton.mp error
        exact .of_readPattern rfl rfl rfl rfl
      · cases error

theorem coversFailures_isOfRules (options : LexiconOptions) :
    g.CoversFailures options AssemblyFault.IsOfRules := by
  have compiles {pattern : String} (accepted : Pattern.IsAccepted pattern) :
      FailsAs AssemblyFault.IsOfRules (compilePart pattern) := by
    obtain ⟨c, ok⟩ := accepted
    rw [compilePart_eq_ok_iff.mpr ok]
    exact .ok c
  refine ⟨.matchesEmpty, .noTokenRules, fun name id _ => ?_, fun kind mem => ?_,
    fun pattern fragment => ?_,
    fun pattern fragment => ?_, fun parts made => ?_⟩
  · rw [specialFragment]
    split
    · next rule => exact failsAs_fragmentText rule
    · exact .error (.missingSpecialRule ..)
  · have key := (g.tokenKinds_ids_sublist options.reserved).subset
      (List.mem_map_of_mem mem)
    exact failsAs_fragmentText (isSome_rule?_of_mem_keys key)
  · exact compiles (IsFragment.composable literals fragment).isAccepted
  · exact compiles (IsFragment.composable literals fragment).isAccepted_anchored
  · exact compiles (composable_source literals
      (LexiconParts.madeOf_of_ofGrammar made)).isAccepted

/-- **Patterns are accepted.** Take a grammar with any rules, all of whose
literals are patterns by themselves, end with the flags that patterns start with
and name no group. Then the fragment of every rule and the pattern of white
space are accepted, alone and between anchors, and so is the master pattern; and
a lexicon fails for missing rules, for rules that match the empty text or for
lack of token rules, but not for how a pattern is written. -/
theorem patterns_accepted :
    (∀ pattern, g.IsFragment pattern →
      Pattern.IsAccepted pattern ∧ Pattern.IsAccepted (anchored pattern)) ∧
      ∀ options,
        (∀ parts, LexiconParts.ofGrammar g options = .ok parts →
          Pattern.IsAccepted parts.source) ∧
          ∀ e, Lexicon.ofGrammar g options = .error e → e.IsOfRules := by
  refine ⟨fun pattern fragment => ?_, fun options => ⟨fun parts made => ?_, ?_⟩⟩
  · have composable := IsFragment.composable literals fragment
    exact ⟨composable.isAccepted, composable.isAccepted_anchored⟩
  · exact (composable_source literals
      (LexiconParts.madeOf_of_ofGrammar made)).isAccepted
  · exact (coversFailures_isOfRules literals options).ofGrammar

end Grammar

/-- Two rules that refer to each other, one with a group and with a bar that
does not look as if it stood outside of all groups and classes. -/
def crossReferences : Grammar where
  symbols := [⟨"a", false⟩, ⟨"b", false⟩]
  rules := [(0, [[.literal "[[a](]|b",
    .reference 1, .group .optional [.literal "c", .reference 0]]]), (1,
    [[.literal "(x)", .reference 0, .literal "(?i:y)"], [.literal "z{2,3}?"]])]
  parameters := []
  start := none

theorem crossReferences_accepted : ∃ fragment parts,
    crossReferences.fragmentText 0 = .ok fragment ∧
    Pattern.IsAccepted fragment ∧
      LexiconParts.ofGrammar crossReferences ⟨true, .default⟩ = .ok parts ∧
      Pattern.IsAccepted parts.source := by
  have literals : ∀ rule ∈ crossReferences.rules, ∀ p ∈ rulePatterns rule.2,
      Pattern.IsSelfContained p := by
    decide +kernel
  obtain ⟨fragment, made⟩ : ∃ fragment,
    crossReferences.fragmentText 0 = .ok fragment := by decide +kernel
  obtain ⟨parts, ok⟩ : ∃ parts, LexiconParts.ofGrammar crossReferences
      ⟨true, .default⟩ = .ok parts := by
    decide +kernel
  obtain ⟨fragments, lexicons⟩ := Grammar.patterns_accepted literals
  exact ⟨fragment, parts, made, (fragments _ (.inr ⟨0, made⟩)).1, ok,
    (lexicons _).1 parts ok⟩

end Lexigram
