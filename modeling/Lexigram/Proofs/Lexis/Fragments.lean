import Lexigram.Proofs.Grammar.Language
import Lexigram.Proofs.Lexis.Assembly
import Lexigram.Proofs.Pattern.Composites

/-!
What fragments match. A literal that can be a part of other patterns is kept
together where it is spliced into a sequence (`Pattern.Splices.spliced`), and so
is the fragment of a rule. The fragment of tokens matches their language if the
references are replaced by what matches theirs (`Token.Expands.fragmented`); a
rule that refers to itself at one end of its alternatives becomes the repetition
that it stands for (`Grammar.exists_ruleFragment`).
-/

namespace Lexigram

open Pattern
  (Compiled Expr IsPart Spells SpellsRun ofText?_anchored mapM_ok_iff)
open scoped Computability

/-! ## Parts in sequence -/

namespace Pattern

/-- Whether a text is a part that matches the words of a language, and shows a
bar if it has alternatives. -/
def Splices (cs : List Char) (l : Language UInt8) : Prop :=
  ∃ q, IsPart cs q ∧ (q.branches.finished ≠ [] → hasOuterBar cs = true) ∧
    q.branches.close.language = l

/-- Whether a literal can be a part of a fragment: it is a pattern by itself,
leaves the flags as they are, names no group, looks at nothing around it, and
shows a bar if it has alternatives. -/
def IsTerminal (pattern : String) : Prop :=
  ∃ q, IsPart pattern.toList q ∧
    (q.branches.finished ≠ [] → hasOuterBar pattern.toList = true)

theorem isTerminal_iff {pattern : String} : IsTerminal pattern ↔
    ((readPattern .initial 0 pattern.toList).toOption.any fun q => decide
      (q.opened = [] ∧ q.flags = .initial ∧
      q.names = [] ∧ q.branches.close.anchorFree ∧
        (q.branches.finished = [] ∨ hasOuterBar pattern.toList))) = true := by
  simp only [toOption_any_iff, decide_eq_true_eq]
  constructor
  · rintro ⟨q, part, bars⟩
    exact ⟨q, part.reads.readPattern_eq, part.complete, part.flags,
      part.nameless, part.free,
      (Decidable.em _).imp_right bars⟩
  · rintro ⟨q, read, complete, flags, nameless, free, bars⟩
    exact ⟨q, .of_readPattern read complete flags nameless free,
      bars.resolve_left⟩

instance : DecidablePred IsTerminal :=
  fun _ => decidable_of_iff _ isTerminal_iff.symm

variable {cs : List Char} {l : Language UInt8}

/-- A pattern without anchors of its own, put between anchors, matches the words
of its language. -/
theorem Enclosable.whole {pattern : String} {q : Progress}
    (own : Enclosable pattern.toList q) (free : q.branches.close.anchorFree) :
    ∃ whole, Compiled.ofText? (anchored pattern) = .ok whole ∧
      ∀ text, whole.matchesIn text = true ↔
      text ∈ q.branches.close.language := by
  have read : Expr.ofText? (anchored pattern).toList
      = .ok q.branches.close.whole := by
    rw [toList_anchored, ofText?_anchored own]
  refine ⟨_, Compiled.ofText?_eq_ok_iff_exists.mpr ⟨_, read, rfl⟩,
    fun text => ?_⟩
  rw [Compiled.matchesIn_whole_iff, Expr.matches_whole_iff free]

theorem Enclosable.wholeMatches_eq {pattern : String} {q : Progress}
    (own : Enclosable pattern.toList q) (free : q.branches.close.anchorFree) :
    wholeMatches pattern = q.branches.close.language := by
  obtain ⟨whole, compiled, words⟩ := own.whole free
  ext text
  rw [← words text]
  constructor
  · intro h
    obtain ⟨again, compiled', matched⟩ := h
    cases compiled.symm.trans compiled'
    exact matched
  · exact fun matched => ⟨whole, compiled, matched⟩

/-- A part between anchors matches the words of its language. -/
theorem Spells.whole {pattern : String} (h : Spells pattern.toList l) :
    ∃ whole, Compiled.ofText? (anchored pattern) = .ok whole ∧ ∀ text,
      whole.matchesIn text = true ↔ text ∈ l := by
  obtain ⟨q, part, rfl⟩ := h
  exact part.enclosable.whole part.free

theorem Splices.spells (h : Splices cs l) : Spells cs l := by
  obtain ⟨q, part, -, language⟩ := h
  exact ⟨q, part, language⟩

theorem SpellsRun.splices (h : SpellsRun cs l) : Splices cs l := by
  obtain ⟨q, part, none, language⟩ := h
  exact ⟨q, part, fun some => absurd none some, language⟩

/-- Alternatives are kept together. -/
theorem Splices.spliced (h : Splices cs l) : SpellsRun (spliced cs) l := by
  rw [Lexigram.spliced]
  split
  · exact h.spells.wrapped
  · next bare =>
    obtain ⟨q, part, bars, language⟩ := h
    exact ⟨q, part, Decidable.not_not.mp fun some => bare (bars some), language⟩

theorem IsTerminal.splices {pattern : String} (h : IsTerminal pattern) :
    Splices pattern.toList (wholeMatches pattern) := by
  obtain ⟨q, part, bars⟩ := h
  exact ⟨q, part, bars, (part.enclosable.wholeMatches_eq part.free).symm⟩

/-- A multiplicity is a repetition with its bounds. -/
theorem repeated_eq_times (m : Multiplicity) (least : Nat)
    (most : Option Nat) (bounds : ∀ n, m.Allows n ↔
      least ≤ n ∧ ∀ k ∈ most, n ≤ least + (k - least)) :
    Expr.repeated l least most = m.times l := by
  ext text
  exact exists_congr fun n => by rw [bounds, and_assoc]

/-- A part in a group of a multiplicity. -/
theorem Spells.times (h : Spells cs l) (m : Multiplicity) :
    SpellsRun (Lexigram.wrapped cs ++ m.suffix) (m.times l) := by
  cases m with
  | one =>
    rw [Multiplicity.times_one, Multiplicity.suffix, List.append_nil]
    exact h.wrapped
  | optional =>
    rw [← repeated_eq_times .optional 0 (some 1)
      (by simp [Multiplicity.Allows])]
    exact h.repeated fun _ => rfl
  | zeroOrMore =>
    rw [← repeated_eq_times .zeroOrMore 0 none (by simp [Multiplicity.Allows])]
    exact h.repeated fun _ => rfl
  | oneOrMore =>
    rw [← repeated_eq_times .oneOrMore 1 none (by simp [Multiplicity.Allows])]
    exact h.repeated fun _ => rfl

/-- A part in a group, any number of times. -/
theorem Spells.star (h : Spells cs l) :
    SpellsRun (Lexigram.wrapped cs ++ ['*']) l∗ :=
  Multiplicity.times_zeroOrMore (l := l) ▸ h.times .zeroOrMore

end Pattern

/-! ## Tokens -/

namespace Token

variable {expand : Expansion} {X : SymbolId → Language UInt8}

/-- Whether the literals of tokens can be parts of a fragment and the references
are replaced by parts for their languages. -/
structure Expands (expand : Expansion) (X : SymbolId → Language UInt8)
    (ts : Alternative SymbolId) : Prop where
  literals : ∀ p ∈ patterns ts, Pattern.IsTerminal p
  references : ∀ t ∈ targets ts, ∃ cs, expand t = .ok cs ∧
    Pattern.Splices cs (X t)

theorem expands_append_iff {ts us : Alternative SymbolId} :
    Expands expand X (ts ++ us) ↔ Expands expand X ts ∧
      Expands expand X us := by
  constructor
  · rintro ⟨literals, references⟩
    rw [patterns_append, List.forall_mem_append] at literals
    rw [targets_append, List.forall_mem_append] at references
    exact ⟨⟨literals.1, references.1⟩, literals.2, references.2⟩
  · rintro ⟨first, second⟩
    constructor
    · rw [patterns_append]
      exact List.forall_mem_append.mpr ⟨first.literals, second.literals⟩
    · rw [targets_append]
      exact List.forall_mem_append.mpr ⟨first.references, second.references⟩

theorem expands_cons_iff {t : Token SymbolId} {ts : Alternative SymbolId} :
    Expands expand X (t :: ts) ↔ Expands expand X [t] ∧ Expands expand X ts :=
  @expands_append_iff expand X [t] ts

/-- Whether the fragment of tokens in sequence matches their language; of
several tokens each is spliced. -/
structure Fragmented (expand : Expansion) (X : SymbolId → Language UInt8)
    (ts : Alternative SymbolId) : Prop where
  spliced : ∃ cs, fragmentAll expand true ts = .ok cs ∧
    SpellsRun cs (languageAll X ts)
  whole : ∃ cs, Alternative.fragment expand ts = .ok cs ∧
    Spells cs (languageAll X ts)

theorem fragmented_nil : Fragmented expand X [] :=
  ⟨⟨[], rfl, .nil⟩, [], rfl, SpellsRun.nil.spells⟩

theorem Fragmented.cons {t : Token SymbolId} {ts : Alternative SymbolId}
    {cs : List Char} (first : t.fragment expand = .ok cs)
    (splices : Pattern.Splices cs (t.language X)) (h : Fragmented expand X ts) :
    Fragmented expand X (t :: ts) := by
  obtain ⟨ds, others, run⟩ := h.spliced
  have spliced : fragmentAll expand true (t :: ts)
      = .ok (Lexigram.spliced cs ++ ds) := by
    rw [fragmentAll, first, others]
    rfl
  have whole := splices.spliced.append run
  refine ⟨⟨_, spliced, whole⟩, ?_⟩
  cases ts with
  | nil =>
    -- a token alone stands as it is
    refine ⟨cs ++ [], ?_, ?_⟩
    · rw [Alternative.fragment, fragmentAll, first]
      rfl
    · rw [List.append_nil, languageAll, languageAll, mul_one]
      exact splices.spells
  | cons u ts =>
    have several : decide ((t :: u :: ts).length > 1) = true := by simp
    exact ⟨_, by rw [Alternative.fragment, several, spliced], whole.spells⟩

/-- The fragment of tokens matches their language. -/
theorem Expands.fragmented {ts : Alternative SymbolId}
    (h : Expands expand X ts) : Fragmented expand X ts := by
  induction ts using sequence_induction with
  | nil => exact fragmented_nil
  | literal p ts ih =>
    obtain ⟨here, others⟩ := expands_cons_iff.mp h
    exact .cons rfl (here.literals p (by simp)).splices (ih others)
  | reference t ts ih =>
    obtain ⟨here, others⟩ := expands_cons_iff.mp h
    obtain ⟨cs, made, splices⟩ := here.references t (by simp)
    exact .cons made splices (ih others)
  | group m members ts inside ih =>
    obtain ⟨here, others⟩ := expands_cons_iff.mp h
    have known : Expands expand X members := ⟨by simpa using here.literals,
      by simpa using here.references⟩
    obtain ⟨cs, made, spells⟩ := (inside known).whole
    have group : (Token.group m members).fragment expand
        = .ok (wrapped cs ++ m.suffix) := by
      rw [Alternative.fragment] at made
      rw [fragment, made]
      rfl
    exact .cons group (spells.times m).splices (ih others)

end Token

/-! ## Alternatives -/

section

variable {expand : Expansion} {X : SymbolId → Language UInt8}
  {as : List (Alternative SymbolId)}

theorem spells_intercalate {parts : List (List Char)} (some : as ≠ []) (h :
      List.Forall₂ (fun a cs => Spells cs (Token.languageAll X a)) as parts) :
    Spells (['|'].intercalate parts) (languageOf X as) := by
  induction h with
  | nil => exact absurd rfl some
  | @cons a cs as parts first others ih =>
    rw [languageOf_cons]
    cases others with
    | nil => simpa [languageOf_nil] using first
    | @cons a' cs' as parts first' others =>
      have whole : ['|'].intercalate (cs :: cs' :: parts)
          = cs ++ '|' :: ['|'].intercalate (cs' :: parts) := by
        simp [List.intercalate]
      rw [whole]
      exact first.bar (ih (List.cons_ne_nil _ _))

/-- The fragment of alternatives matches the language of all of them. -/
theorem exists_choiceFragment (some : as ≠ [])
    (known : ∀ a ∈ as, Token.Expands expand X a) :
    ∃ cs, choiceFragment expand as = .ok cs ∧ Spells cs (languageOf X as) := by
  obtain ⟨parts, all⟩ :=
    exists_forall₂ fun a mem => (known a mem).fragmented.whole
  refine ⟨['|'].intercalate parts, ?_,
    spells_intercalate some (all.imp fun _ _ h => h.2)⟩
  rw [choiceFragment, mapM_ok_iff.mpr (all.imp fun _ _ h => h.1)]
  rfl

end

/-! ## Rules that repeat -/

theorem Alternative.mentions_iff {a : Alternative SymbolId} {id : SymbolId} :
    a.mentions id = true ↔ id ∈ Token.targets a := by
  simp only [mentions, Token.mentions,
    Token.targets, List.any_eq_true, decide_eq_true_eq, List.mem_filterMap,
    Token.postorderAll_eq_flatMap, List.mem_flatMap]
  constructor
  · rintro ⟨t, mem, u, inside, here⟩
    exact ⟨u, ⟨t, mem, inside⟩, here⟩
  · rintro ⟨u, ⟨t, mem, inside⟩, here⟩
    exact ⟨t, mem, u, inside, here⟩

/-- At the end of an alternative the reference to the rule itself is found, with
what stands beside it. -/
theorem selfReference?_extend (side : Recursion)
    {id : SymbolId} {body : Alternative SymbolId} (some : body ≠ [])
    (absent : id ∉ Token.targets body) :
    selfReference? id (side.extend id body) = .some (side, body) := by
  have plain : Alternative.mentions body id = false := by
    rw [← Bool.not_eq_true, Alternative.mentions_iff]
    exact absent
  cases side with
  | right => simp [selfReference?, Recursion.extend, plain, some]
  | left =>
    have last : (Recursion.left.extend id body).getLast?
        ≠ .some (.reference id) := by
      intro same
      rw [Recursion.extend, List.getLast?_cons_of_ne_nil some] at same
      refine absent ?_
      obtain ⟨front, rfl⟩ := List.getLast?_eq_some_iff.mp same
      simp
    rw [selfReference?, if_neg fun both => last both.1]
    simp [Recursion.extend, plain, some]

theorem exists_mapM_selfReference? {side : Recursion} {id : SymbolId}
    {as : List (Alternative SymbolId)} (again : ∀ a ∈ as, ∃ body,
      a = side.extend id body ∧ body ≠ [] ∧ id ∉ Token.targets body) :
    ∃ bodies : List (Alternative SymbolId),
      as.mapM (selfReference? id) = some (bodies.map (side, ·)) ∧
      as = bodies.map (side.extend id) ∧ ∀ b ∈ bodies,
      id ∉ Token.targets b := by
  induction as with
  | nil => exact ⟨[], rfl, rfl, List.forall_mem_nil _⟩
  | cons a as ih =>
    obtain ⟨⟨body, rfl, some, absent⟩, others⟩ := List.forall_mem_cons.mp again
    obtain ⟨bodies, found, rfl, all⟩ := ih others
    refine ⟨body :: bodies, ?_, rfl, List.forall_mem_cons.mpr ⟨absent, all⟩⟩
    rw [List.mapM_cons, selfReference?_extend side some absent, found]
    rfl

theorem repetitionParts?_eq_none {id : SymbolId}
    {as : List (Alternative SymbolId)} (absent : id ∉ ruleTargets as) :
    repetitionParts? id as = none := by
  have none : (as.filter fun a => a.mentions id) = [] := by
    rw [List.filter_eq_nil_iff]
    exact fun a mem mentions => absent
      (List.mem_flatMap.mpr ⟨a, mem, Alternative.mentions_iff.mp mentions⟩)
  rw [repetitionParts?, none]
  rfl

/-- A rule that repeats is taken apart. -/
theorem RepeatsAt.exists_parts {side : Recursion} {id : SymbolId}
    {as : List (Alternative SymbolId)} (h : RepeatsAt side id as)
    (mem : id ∈ ruleTargets as) :
    ∃ bodies base, repetitionParts? id as = some (side, bodies, base) ∧
      bodies ≠ [] ∧ base ≠ [] ∧
      Grammar.Splits side id as bodies base := by
  set base := as.filter fun a => !a.mentions id with plain
  have again : ∀ a ∈ as.filter fun a => a.mentions id,
      ∃ body, a = side.extend id body ∧ body ≠ [] ∧
      id ∉ Token.targets body := fun a mem => by
    obtain ⟨chosen, mentions⟩ := List.mem_filter.mp mem
    exact h.again a chosen (Alternative.mentions_iff.mp mentions)
  obtain ⟨bodies, found, mentions, absent⟩ := exists_mapM_selfReference? again
  have mem_base {a : Alternative SymbolId} : a ∈ base ↔
      a ∈ as ∧ id ∉ Token.targets a := by
    simp [plain, ← Alternative.mentions_iff]
  have mem_mentions {a : Alternative SymbolId} : a ∈ bodies.map (side.extend id)
      ↔ a ∈ as ∧ id ∈ Token.targets a := by
    rw [← mentions, List.mem_filter, Alternative.mentions_iff]
  have some : bodies ≠ [] := by
    rintro rfl
    obtain ⟨a, chosen, target⟩ := List.mem_flatMap.mp mem
    exact absurd (mem_mentions.mpr ⟨chosen, target⟩) List.not_mem_nil
  have others : base ≠ [] := by
    obtain ⟨a, chosen, target⟩ := h.base
    exact List.ne_nil_of_mem (mem_base.mpr ⟨chosen, target⟩)
  refine ⟨bodies, base, ?_, some, others, fun a => mem_base.mp, fun b mem => ?_,
    fun a mem => ?_⟩
  · rw [repetitionParts?, found, ← plain]
    obtain ⟨b, bodies, rfl⟩ := List.exists_cons_of_ne_nil some
    simp [others]
  · exact ⟨(mem_mentions.mp (List.mem_map_of_mem mem)).1, absent b mem⟩
  · by_cases target : id ∈ Token.targets a
    · obtain ⟨b, listed, rfl⟩ :=
        List.mem_map.mp (mem_mentions.mpr ⟨mem, target⟩)
      exact .inr ⟨b, listed, rfl⟩
    · exact .inl (mem_base.mpr ⟨mem, target⟩)

theorem Recursion.patterns_subset_extend (side : Recursion) (id : SymbolId)
    (ts : Alternative SymbolId) :
    Token.patterns ts ⊆ Token.patterns (side.extend id ts) := by
  cases side <;> simp [extend]

theorem Recursion.targets_subset_extend (side : Recursion) (id : SymbolId)
    (ts : Alternative SymbolId) :
    Token.targets ts ⊆ Token.targets (side.extend id ts) := by
  cases side <;> simp [extend]

theorem singleLiteral?_eq_some_iff {as : List (Alternative SymbolId)}
    {p : String} :
    singleLiteral? as = some p ↔ as = [[.literal p]] := by
  unfold singleLiteral?
  split <;> simp_all

/-! ## Rules -/

namespace Grammar

variable {g : Grammar}

/-- The fragment of a rule matches what the rule derives, if what the references
are replaced by matches what they derive. The rule refers to itself only to
repeat. -/
theorem exists_ruleFragment {expand : Expansion} {id : SymbolId}
    {as : List (Alternative SymbolId)} (rule : g.rule? id = some as)
    (some : as ≠ []) (literals : ∀ p ∈ rulePatterns as, Pattern.IsTerminal p)
    (expands : ∀ t ∈ ruleTargets as, t ≠ id →
      ∃ cs, expand t = .ok cs ∧ Pattern.Splices cs (g.derived [.reference t]))
    (repeats : id ∈ ruleTargets as → ∃ side, RepeatsAt side id as) :
    ∃ cs, ruleFragment expand id as = .ok cs ∧
      Pattern.Splices cs (g.derived [.reference id]) := by
  have known {a b : Alternative SymbolId}
      (chosen : a ∈ as) (patterns : Token.patterns b ⊆ Token.patterns a)
      (targets : Token.targets b ⊆ Token.targets a)
      (absent : id ∉ Token.targets b) :
      Token.Expands expand (fun t => g.derived [.reference t]) b :=
    ⟨fun p mem => literals p (List.mem_flatMap.mpr ⟨a, chosen, patterns mem⟩),
      fun t mem => expands t (List.mem_flatMap.mpr ⟨a, chosen, targets mem⟩)
      (ne_of_mem_of_not_mem mem absent)⟩
  have own {a : Alternative SymbolId} (chosen : a ∈ as)
      (absent : id ∉ Token.targets a) :=
    known chosen (List.Subset.refl _) (List.Subset.refl _) absent
  unfold ruleFragment
  split
  · next p single =>
    -- the pattern of a rule that is one literal stands as it is
    obtain rfl := singleLiteral?_eq_some_iff.mp single
    refine ⟨_, rfl, ?_⟩
    have words : g.derived [.reference id] = Pattern.wholeMatches p := by
      rw [derived_reference_eq rule, languageOf_cons, languageOf_nil, add_zero]
      exact mul_one _
    rw [words]
    exact (literals p (by simp [rulePatterns])).splices
  · by_cases mentions : id ∈ ruleTargets as
    · obtain ⟨side, repeatsAt⟩ := repeats mentions
      obtain ⟨bodies, base, parts, nonempty, nonempty', splits⟩ :=
        repeatsAt.exists_parts mentions
      obtain ⟨again, made, spells⟩ :=
        exists_choiceFragment nonempty fun b mem =>
          known (splits.again b mem).1 (side.patterns_subset_extend id b)
            (side.targets_subset_extend id b) (splits.again b mem).2
      obtain ⟨last, made', spells'⟩ :=
        exists_choiceFragment nonempty' fun a mem =>
          own (splits.plain a mem).1 (splits.plain a mem).2
      -- the bodies any number of times, on the other side of which stands one
      -- of the base alternatives
      rw [parts, derived_of_splits splits rule]
      simp only [made, made']
      cases side with
      | right => exact ⟨_, rfl, (spells.star.append spells'.wrapped).splices⟩
      | left => exact ⟨_, rfl, (spells'.wrapped.append spells.star).splices⟩
    · obtain ⟨cs, made, spells⟩ := exists_choiceFragment some fun a mem =>
        own mem fun target => mentions (List.mem_flatMap.mpr ⟨a, mem, target⟩)
      rw [repetitionParts?_eq_none mentions, derived_reference_eq rule, made]
      exact ⟨_, rfl, spells.wrapped.splices⟩

end Grammar

end Lexigram
