import Mathlib.Data.Fintype.List
import Mathlib.Data.Fintype.Card
import Mathlib.Logic.Relation
import Lexigram.Proofs.Grammar.PlainForm
import Lexigram.Proofs.Lexis.Fragments

/-!
Grammars that unfold into patterns. If no rule refers to itself but to repeat,
and references lead around in no other way, then the fragment of each rule
matches exactly the texts that the rule derives (`Grammar.fragments_exact`). A
grammar without cycles is of this kind once it is made plain, since a made-up
rule refers to itself only to repeat (`Grammar.unfolds_plain`).
-/

namespace Lexigram

open Pattern (Compiled)
open Relation (TransGen)

namespace Grammar

/-! ## References -/

/-- Whether the rule of `r` refers to `t`. -/
def Refers (g : Grammar) (r t : SymbolId) : Prop :=
  ∃ as, (r, as) ∈ g.rules ∧ t ∈ ruleTargets as

/-- Whether the rule of `r` refers to `t`, another symbol. -/
def RefersOn (g : Grammar) (r t : SymbolId) : Prop :=
  r ≠ t ∧ g.Refers r t

/-- Whether the rules of a grammar unfold into patterns: the literals can be
parts of fragments, every reference has a rule, and references lead back to a
rule only from the rule itself, which is a repetition then. -/
structure Unfolds (g : Grammar) : Prop where
  terminals : ∀ rule ∈ g.rules, ∀ p ∈ rulePatterns rule.2, Pattern.IsTerminal p
  defined : ∀ rule ∈ g.rules, ∀ t ∈ ruleTargets rule.2, t ∈ Table.keys g.rules
  acyclic : ∀ id, ¬ TransGen g.RefersOn id id
  repeats : ∀ rule ∈ g.rules, rule.1 ∈ ruleTargets rule.2 → ∃ side,
    RepeatsAt side rule.1 rule.2

/-- Whether the fragment of every rule, as a pattern of whole texts, matches
exactly what the rule derives. -/
def FragmentsExact (g : Grammar) : Prop :=
  ∀ id as, g.rule? id = some as → ∃ fragment whole,
    g.fragmentText id = .ok fragment ∧
    Compiled.ofText? (anchored fragment) = .ok whole ∧
      ∀ text, whole.matchesIn text = true ↔ text ∈ g.derived [.reference id]

/-! ## Along the references -/

section

variable {g : Grammar}

/-- What a reference in the rule of `id` is replaced by while the rules in
`visiting` are visited. -/
def expansion (g : Grammar) (visiting : List SymbolId) (id : SymbolId) :
    Expansion := fun target =>
  if (g.rule? target).isSome then g.fragmentFrom visiting target
  else .error (.undefinedRule id (g.nameOf id) target (g.nameOf target))

theorem expansion_of_isSome {visiting : List SymbolId} {id target : SymbolId}
    (defined : (g.rule? target).isSome = true) :
    g.expansion visiting id target = g.fragmentFrom visiting target :=
  if_pos defined

theorem expansion_of_eq_none {visiting : List SymbolId} {id target : SymbolId}
    (missing : g.rule? target = none) :
    g.expansion visiting id target
      = .error (.undefinedRule id (g.nameOf id) target (g.nameOf target)) :=
  if_neg (by simp [missing])

theorem fragmentFrom_eq {visiting : List SymbolId} {id : SymbolId}
    {as : List (Alternative SymbolId)} (rule : g.rule? id = some as)
    (fresh : visiting.contains id = false) :
    g.fragmentFrom visiting id = ruleFragment (g.expansion (id :: visiting) id)
      id as := by
  rw [fragmentFrom, dif_pos fresh]
  split
  · next none => cases rule.symm.trans none
  · next as' rule' =>
    cases rule.symm.trans rule'
    rfl

/-- The fragment of a rule matches what the rule derives, whatever rules the
references lead through on the way. -/
theorem Unfolds.exists_fragmentFrom (h : g.Unfolds)
    (some : ∀ rule ∈ g.rules, rule.2 ≠ []) {visiting : List SymbolId}
    {id : SymbolId} {as : List (Alternative SymbolId)}
    (rule : g.rule? id = .some as)
    (path : ∀ v ∈ visiting, TransGen g.RefersOn v id) :
    ∃ cs, g.fragmentFrom visiting id = .ok cs ∧
      Pattern.Splices cs (g.derived [.reference id]) := by
  -- a rule that is visited does not come up again, so there is always one less
  -- to visit
  induction size : g.unvisited visiting using Nat.strong_induction_on
      generalizing visiting id as with
  | _ n ih =>
    have fresh : visiting.contains id = false := by
      rw [List.contains_eq_mem, decide_eq_false_iff_not]
      exact fun mem => h.acyclic id (path id mem)
    have mem := Table.mem_of_find? rule
    rw [fragmentFrom_eq rule fresh]
    refine exists_ruleFragment rule (some _ mem) (h.terminals _ mem)
      (fun t target other => ?_) (h.repeats _ mem)
    obtain ⟨as', rule'⟩ :=
      Table.exists_find?_of_mem_keys (h.defined _ mem t target)
    have on : g.RefersOn id t := ⟨Ne.symm other, as, mem, target⟩
    rw [expansion_of_isSome (by
      rw [show g.rule? t = .some as' from rule']; rfl)]
    exact ih _ (size ▸ unvisited_cons_lt rule fresh) rule'
      (List.forall_mem_cons.mpr ⟨.single on, fun v mem => (path v mem).tail on⟩)
      rfl

theorem Unfolds.fragmentsExact (h : g.Unfolds)
    (some : ∀ rule ∈ g.rules, rule.2 ≠ []) : g.FragmentsExact := by
  intro id as rule
  obtain ⟨cs, made, splices⟩ :=
    h.exists_fragmentFrom some rule (List.forall_mem_nil _)
  have text : g.fragmentText id = .ok (String.ofList cs) := by
    rw [fragmentText, fragment, made]
    rfl
  have spells : Pattern.Spells (String.ofList cs).toList
      (g.derived [.reference id]) := by
    rw [String.toList_ofList]
    exact splices.spells
  obtain ⟨whole, compiled, words⟩ := spells.whole
  exact ⟨_, whole, text, compiled, words⟩

end

/-! ## Without cycles -/

/-- References without cycles come to an end. -/
theorem wellFounded_refers {g : Grammar}
    (acyclic : ∀ id, ¬ TransGen g.Refers id id) :
    WellFounded fun t r : {id // id ∈ Table.keys g.rules} =>
      TransGen g.Refers r t := by
  have : IsTrans {id // id ∈ Table.keys g.rules} fun t r =>
      TransGen g.Refers r t :=
    ⟨fun _ _ _ later sooner => sooner.trans later⟩
  have : Std.Irrefl fun t r : {id // id ∈ Table.keys g.rules} =>
      TransGen g.Refers r t :=
    ⟨fun id => acyclic id⟩
  exact Finite.wellFounded_of_trans_of_irrefl _

/-- From where references come to an end they do not lead back. -/
theorem not_transGen_of_acc {α : Type} {R : α → α → Prop} {a : α}
    (ends : Acc (fun t r => R r t) a) :
    ¬ TransGen R a a := by
  induction ends with
  | intro a _ ih =>
    intro cycle
    obtain ⟨b, first, back⟩ := TransGen.head'_iff.mp cycle
    exact ih b first (TransGen.tail' back first)

namespace PlainForm

variable {side : Recursion} {flat : Rules} {draft : Draft} {h g : Grammar}

theorem mem_flat_of_lt (form : PlainForm side flat draft h g)
    (known : g.WellScoped) {rule : SymbolId × List (Alternative SymbolId)}
    (mem : rule ∈ h.rules) (old : rule.1 < g.symbols.length) :
    rule ∈ flat :=
  ((form.mem_rules_iff known).mp mem).resolve_right fun made =>
    Nat.not_lt_of_le (form.bounds_of_created (List.mem_map_of_mem made)).1 old

/-- A made-up symbol has no rule but the one that was made up. -/
theorem eq_of_created (form : PlainForm side flat draft h g)
    (known : g.WellScoped) {id : SymbolId}
    {as as' : List (Alternative SymbolId)} (made : (id, as) ∈ draft.created)
    (mem : (id, as') ∈ h.rules) :
    as' = as := by
  rcases (form.mem_rules_iff known).mp mem with old | made'
  · have key : id ∈ Table.keys g.rules :=
      form.keys_flat ▸ List.mem_map_of_mem old
    obtain ⟨source, stands, rfl⟩ := List.mem_map.mp key
    exact absurd (known source stands).1
      (Nat.not_lt_of_le (form.bounds_of_created (List.mem_map_of_mem made)).1)
  · exact Option.some.inj
      ((Table.find?_of_mem form.nodup_created made').symm.trans
        (Table.find?_of_mem form.nodup_created made))

theorem exists_source_of_flat (form : PlainForm side flat draft h g)
    {rule : SymbolId × List (Alternative SymbolId)} (mem : rule ∈ flat) :
    ∃ as, (rule.1, as) ∈ g.rules ∧ ComesFrom side draft.created as rule.2 := by
  obtain ⟨⟨id, as⟩, stands, key, comes⟩ :=
    exists_mem_of_forall₂ form.comes.flip mem
  exact ⟨as, key ▸ stands, comes⟩

/-- From a made-up rule references lead only to rules made up before, and to
what the rule refers to that it was made for. -/
theorem acc_of_madeFor (form : PlainForm side flat draft h g)
    (known : g.WellScoped) {as : List (Alternative SymbolId)}
    (below : ∀ t ∈ ruleTargets as, Acc (fun t r => h.RefersOn r t) t)
    {id : SymbolId} (made : MadeFor side draft.created as id) :
    Acc (fun t r => h.RefersOn r t) id := by
  induction made with
  | rule mem patterns repeats targets ih =>
    refine ⟨_, fun t ⟨other, as', stands, target⟩ => ?_⟩
    rw [form.eq_of_created known mem stands] at target
    obtain ⟨a, chosen, here⟩ := List.mem_flatMap.mp target
    by_cases old : t ∈ ruleTargets as
    · exact below t old
    · exact ih a chosen t here (Ne.symm other) old

theorem acc_of_mem_keys (form : PlainForm side flat draft h g)
    (known : g.WellScoped) (defined : ∀ rule ∈ g.rules,
      ∀ t ∈ ruleTargets rule.2, t ∈ Table.keys g.rules)
    (acyclic : ∀ id, ¬ TransGen g.Refers id id) {id : SymbolId}
    (mem : id ∈ Table.keys g.rules) :
    Acc (fun t r => h.RefersOn r t) id := by
  refine (wellFounded_refers acyclic).induction
    (C := fun r => Acc (fun t r => h.RefersOn r t) r.1) ⟨id, mem⟩ ?_
  rintro ⟨r, listed⟩ ih
  refine ⟨_, fun t ⟨other, as', stands, target⟩ => ?_⟩
  obtain ⟨rule, there, rfl⟩ := List.mem_map.mp listed
  obtain ⟨as, source, comes⟩ := form.exists_source_of_flat
    (form.mem_flat_of_lt known stands (known rule there).1)
  have below : ∀ t ∈ ruleTargets as,
      Acc (fun t r => h.RefersOn r t) t := fun t mem =>
    ih ⟨t, defined _ source t mem⟩ (.single ⟨as, source, mem⟩)
  obtain ⟨a, chosen, here⟩ := List.mem_flatMap.mp target
  exact (comes.targets a chosen t here).elim (below t)
    (form.acc_of_madeFor known below)

end PlainForm

/-- Without cycles a grammar unfolds once it is made plain. -/
theorem unfolds_plain {g h : Grammar} {side : Recursion} (known : g.WellScoped)
    (unfolds : g.Unfolds) (acyclic : ∀ id, ¬ TransGen g.Refers id id)
    (eq : g.plain side = .ok h) :
    h.Unfolds ∧ ∀ rule ∈ h.rules, rule.2 ≠ [] := by
  obtain ⟨flat, draft, form⟩ := exists_plainForm known eq
  have ends : ∀ id ∈ Table.keys g.rules,
      Acc (fun t r => h.RefersOn r t) id := fun id mem =>
    form.acc_of_mem_keys known unfolds.defined acyclic mem
  have listed {id : SymbolId} (mem : id ∈ Table.keys g.rules) :
      id ∈ Table.keys h.rules := by
    rw [← form.keys_flat] at mem
    obtain ⟨rule, stands, rfl⟩ := List.mem_map.mp mem
    exact List.mem_map_of_mem ((form.mem_rules_iff known).mpr (.inl stands))
  have made_listed {as : List (Alternative SymbolId)} {id : SymbolId}
    (made : MadeFor side draft.created as id) :
      id ∈ Table.keys draft.created := by
    cases made with
    | rule mem _ _ _ => exact List.mem_map_of_mem mem
  refine ⟨⟨fun rule mem p stands => ?_, fun rule mem t target => ?_,
    fun id cycle => ?_, fun rule mem self => ?_⟩, ?_⟩
  · obtain ⟨source, stands', comes⟩ := form.exists_source known mem
    obtain ⟨a, chosen, here⟩ := List.mem_flatMap.mp stands
    exact unfolds.terminals source stands' p (comes.patterns a chosen p here)
  · obtain ⟨source, stands, comes⟩ := form.exists_source known mem
    obtain ⟨a, chosen, here⟩ := List.mem_flatMap.mp target
    rcases comes.targets a chosen t here with old | made
    · exact listed (unfolds.defined source stands t old)
    · obtain ⟨rule, created, rfl⟩ := List.mem_map.mp (made_listed made)
      exact List.mem_map_of_mem ((form.mem_rules_iff known).mpr (.inr created))
  · obtain ⟨t, ⟨-, as, mem, -⟩, -⟩ := TransGen.head'_iff.mp cycle
    refine not_transGen_of_acc ?_ cycle
    rcases (form.mem_rules_iff known).mp mem with old | created
    · exact ends id (form.keys_flat ▸ List.mem_map_of_mem old)
    · obtain ⟨ge, lt⟩ := form.bounds_of_created (List.mem_map_of_mem created)
      obtain ⟨source, stands, made⟩ := form.made id ge lt
      exact form.acc_of_madeFor known
        (fun t target => ends t (unfolds.defined source stands t target)) made
  · -- a rule that was there before would be on a cycle, so only those made up
    -- refer to themselves
    rcases (form.mem_rules_iff known).mp mem with old | created
    · obtain ⟨as, stands, comes⟩ := form.exists_source_of_flat old
      obtain ⟨a, chosen, here⟩ := List.mem_flatMap.mp self
      rcases comes.targets a chosen rule.1 here with target | made
      · exact absurd (.single ⟨as, stands, target⟩) (acyclic rule.1)
      · exact absurd (known _ stands).1
          (Nat.not_lt_of_le (form.bounds_of_created (made_listed made)).1)
    · obtain ⟨ge, lt⟩ := form.bounds_of_created (List.mem_map_of_mem created)
      obtain ⟨source, -, made⟩ := form.made rule.1 ge lt
      exact ⟨side, (form.alternatives_of_madeFor created made).1⟩
  · intro rule mem
    obtain ⟨source, -, comes⟩ := form.exists_source known mem
    exact comes.nonempty

/-- **Fragments are exact.** Where the rules of a grammar unfold and all have
alternatives, the fragment of each, as a pattern of whole texts, matches exactly
the texts that the rule derives. The same holds of what a grammar without cycles
comes to when it is made plain. -/
theorem fragments_exact :
    (∀ g : Grammar, g.Unfolds → (∀ rule ∈ g.rules, rule.2 ≠ []) →
      g.FragmentsExact) ∧
      ∀ (g h : Grammar) (side : Recursion), g.WellScoped → g.Unfolds →
      (∀ id, ¬ TransGen g.Refers id id) →
        g.plain side = .ok h → h.FragmentsExact := by
  refine ⟨fun g unfolds some => unfolds.fragmentsExact some,
    fun g h side known unfolds acyclic eq => ?_⟩
  obtain ⟨unfolds', some⟩ := unfolds_plain known unfolds acyclic eq
  exact unfolds'.fragmentsExact some

end Grammar

/-! ## Grammars with exact fragments -/

/-- References to lower symbols alone do not lead back. -/
theorem not_transGen_of_lt {R : SymbolId → SymbolId → Prop}
    (lower : ∀ r t, R r t → t < r) (id : SymbolId) :
    ¬ TransGen R id id := by
  have down {t : SymbolId} (path : TransGen R id t) : t < id := by
    induction path with
    | single first => exact lower _ _ first
    | tail _ last ih => exact Nat.lt_trans (lower _ _ last) ih
  exact fun cycle => Nat.lt_irrefl _ (down cycle)

/-- A grammar unfolds if its rules refer to lower symbols alone. -/
theorem Grammar.unfolds_of_lt {g : Grammar} (terminals : ∀ rule ∈ g.rules,
      ∀ p ∈ rulePatterns rule.2, Pattern.IsTerminal p) (defined :
      ∀ rule ∈ g.rules, ∀ t ∈ ruleTargets rule.2, t ∈ Table.keys g.rules)
    (lower : ∀ rule ∈ g.rules, ∀ t ∈ ruleTargets rule.2, t < rule.1) :
    g.Unfolds ∧ ∀ id, ¬ TransGen g.Refers id id := by
  have acyclic (id : SymbolId) : ¬ TransGen g.Refers id id :=
    not_transGen_of_lt (fun r t ⟨as, mem, target⟩ => lower _ mem t target) id
  have on : g.RefersOn ≤ g.Refers := fun _ _ refers => refers.2
  exact ⟨⟨terminals, defined, fun id cycle => acyclic id
    (TransGen.mono on _ _ cycle),
    fun rule mem self => absurd (lower rule mem _ self) (Nat.lt_irrefl _)⟩,
    acyclic⟩

/-- Decimal numbers with a sign, their digits one behind the other. -/
def decimals : Grammar where
  symbols := [⟨"digits", false⟩, ⟨"sign", false⟩, ⟨"number", false⟩]
  rules := [(0, [[.literal "[0-9]", .reference 0], [.literal "[0-9]"]]),
    (1, [[.literal "\\+|-"]]), (2, [[.reference 1, .reference 0,
      .group .optional [.literal "\\.", .reference 0]], [.reference 0]])]
  parameters := []
  start := none

theorem decimals_unfolds : decimals.Unfolds where
  terminals := by decide +kernel
  defined := by decide
  acyclic := by
    have lower : ∀ rule ∈ decimals.rules, ∀ t ∈ ruleTargets rule.2, rule.1 ≠ t →
      t < rule.1 := by decide
    exact not_transGen_of_lt fun r t ⟨other, as, mem, target⟩ =>
      lower _ mem t target other
  repeats rule mem self := by
    have only : ∀ rule ∈ decimals.rules, rule.1 ∈ ruleTargets rule.2 →
        rule = (0, [Recursion.right.extend 0 [.literal "[0-9]"],
          [.literal "[0-9]"]]) := by decide
    obtain rfl := only rule mem self
    exact ⟨.right, repeatsAt_extend (List.cons_ne_nil _ _) List.not_mem_nil⟩

/-- Names in a list. -/
def enumerations : Grammar where
  symbols := [⟨"name", false⟩, ⟨"list", false⟩]
  rules := [(0, [[.literal "[a-z]+"]]),
    (1, [[.reference 0, .group .zeroOrMore [.literal ",", .reference 0]]])]
  parameters := []
  start := none

theorem enumerations_unfolds :
    enumerations.Unfolds ∧ ∀ id, ¬ TransGen enumerations.Refers id id :=
  Grammar.unfolds_of_lt (by decide +kernel) (by decide) (by decide)

theorem decimals_enumerations_exact :
    decimals.Unfolds ∧ (∀ rule ∈ decimals.rules, rule.2 ≠ []) ∧
      decimals.FragmentsExact ∧ enumerations.WellScoped ∧ enumerations.Unfolds ∧
      (∀ id, ¬ TransGen enumerations.Refers id id) ∧
        ∃ h, enumerations.plain .left = .ok h ∧ h.rules.length = 3 ∧
        h.FragmentsExact := by
  have some : ∀ rule ∈ decimals.rules, rule.2 ≠ [] := by decide
  have known : enumerations.WellScoped := by decide
  obtain ⟨unfolds, acyclic⟩ := enumerations_unfolds
  exact ⟨decimals_unfolds, some, Grammar.fragments_exact.1
    decimals decimals_unfolds some, known, unfolds, acyclic, _, rfl, rfl,
    Grammar.fragments_exact.2 enumerations _ .left known unfolds acyclic rfl⟩

/-! ## Grammars with others -/

/-- A rule without alternatives. -/
def barren : Grammar where
  symbols := [⟨"a", false⟩]
  rules := [(0, [])]
  parameters := []
  start := none

/-- Rules outside the table of symbols, which is empty. -/
def outsiders : Grammar where
  symbols := []
  rules := [(0, [[.literal "b"]]), (1, [[.reference 0]]),
    (2, [[.group .zeroOrMore [.reference 1, .literal "x"]]])]
  parameters := []
  start := none

/-- The same made plain. The symbol that is made up for the group is the one of
the first rule. -/
def outsidersPlain : Grammar where
  symbols := [⟨"__bnf_0", true⟩]
  rules := [(0, [[.reference 1, .literal "x", .reference 0], [.reference 1,
    .literal "x"]]), (1, [[.reference 0]]), (2, [[.reference 0], []])]
  parameters := []
  start := none

theorem not_fragmentsExact {g : Grammar}
    {id : SymbolId} {as : List (Alternative SymbolId)} {text : List UInt8}
    (rule : g.rule? id = some as) (underived : text ∉ g.derived [.reference id])
    (matched : ((g.fragmentText id).toOption.all fun fragment =>
      (Compiled.ofText? (anchored fragment)).toOption.all (·.matchesIn text))
          = true) : ¬ g.FragmentsExact := by
  intro same
  obtain ⟨fragment, whole, made, compiled, words⟩ := same id as rule
  exact underived
    ((words text).mp (of_toOption_all (of_toOption_all matched made) compiled))

theorem not_mem_derived_outsidersPlain (text : List UInt8) :
    text ∉ outsidersPlain.derived [.reference 0] := by
  -- the first two rules need each other
  let X : SymbolId → Language UInt8 := fun t => if t < 2 then 0 else ⊤
  have closed : ∀ id as, outsidersPlain.rule? id = some as → ∀ a ∈ as,
      Token.languageAll X a ≤ X id := by
    have each : ∀ rule ∈ outsidersPlain.rules, ∀ a ∈ rule.2,
        Token.languageAll X a ≤ X rule.1 := by
      simp [outsidersPlain, Token.languageAll, Token.language, X]
    exact fun id as rule => each (id, as) (Table.mem_of_find? rule)
  have none := Grammar.derived_le closed [.reference 0]
  rw [Token.languageAll_reference] at none
  exact fun mem => Language.notMem_zero text (none mem)

/-- A rule without alternatives derives nothing, but its fragment matches the
empty text. A rule outside the table of symbols can be lost when a grammar
without cycles is made plain, so that there is one. -/
theorem barren_outsiders_inexact :
    barren.Unfolds ∧ ¬ barren.FragmentsExact ∧
      outsiders.Unfolds ∧ (∀ id, ¬ TransGen outsiders.Refers id id) ∧
        ∃ h, outsiders.plain .right = .ok h ∧ ¬ h.FragmentsExact := by
  obtain ⟨unfolds, -⟩ : barren.Unfolds ∧ _ :=
    Grammar.unfolds_of_lt (by decide) (by decide) (by decide)
  obtain ⟨unfolds', acyclic⟩ : outsiders.Unfolds ∧ _ :=
    Grammar.unfolds_of_lt (by decide +kernel) (by decide) (by decide)
  refine ⟨unfolds, ?_, unfolds', acyclic, outsidersPlain, by decide +kernel, ?_⟩
  · have underived : ([] : List UInt8) ∉ barren.derived [.reference 0] := by
      rw [Grammar.derived_reference rfl]
      rintro ⟨a, mem, -⟩
      cases mem
    exact not_fragmentsExact rfl underived (by decide +kernel)
  · have underived : [120] ∉ outsidersPlain.derived [.reference 0] :=
      not_mem_derived_outsidersPlain _
    exact not_fragmentsExact rfl underived (by decide +kernel)

end Lexigram
