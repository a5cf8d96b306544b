import Mathlib.Logic.Relation
import Lexigram.Proofs.Grammar.MadeUp
import Lexigram.Proofs.Grammar.PlainLanguage
import Lexigram.Proofs.Grammar.Tidy

/-!
The form of a plain grammar: the rules of the grammar without groups, and behind
them the rules made up for groups. A tidy grammar made plain is tidy.
-/

namespace Lexigram

open Relation (ReflTransGen)

/-- What tokens refer to, their plain tokens lead to by way of made-up rules. -/
theorem Flattened.reaches {bound : Nat} {recursion : Recursion}
    {made : List (SymbolId × List (Alternative SymbolId))}
    {ts : Alternative SymbolId} {us : List (Token SymbolId × Bool)}
    (h : Flattened bound recursion made ts us) {t : SymbolId}
    (mem : t ∈ Token.targets ts) :
    ∃ r ∈ Token.targets (us.map (·.1)),
      ReflTransGen (fun r t => ∃ as, (r, as) ∈ made ∧ t ∈ ruleTargets as)
      r t := by
  have refers {id r : SymbolId} {as : List (Alternative SymbolId)}
      {a : Alternative SymbolId} (rule : (id, as) ∈ made)
      (chosen : a ∈ as) (target : r ∈ Token.targets a) : ∃ as, (id, as) ∈ made ∧
      r ∈ ruleTargets as :=
    ⟨as, rule, List.mem_flatMap.mpr ⟨a, chosen, target⟩⟩
  -- the members of a group are all in the first variant of its plain tokens
  have first (inner : List (Token SymbolId × Bool)) :
      inner.map (·.1) ∈ omissions inner := by
    rw [omissions_eq_cons]
    exact List.mem_cons_self
  induction h with
  | nil => cases mem
  | literal _ ih =>
    rw [Token.targets_literal] at mem
    simpa using ih mem
  | @reference target _ _ _ _ ih =>
    rw [Token.targets_reference] at mem
    rcases List.mem_cons.mp mem with rfl | later
    · exact ⟨t, by simp, .refl⟩
    · obtain ⟨r, stands, path⟩ := ih later
      exact ⟨r, by simp [stands], path⟩
  | @inlined m leaf ts us _ _ _ _ member ih =>
    rw [Token.targets_group] at mem
    rw [List.map_cons, ← List.singleton_append, Token.targets_append]
    rcases List.mem_append.mp mem with here | later
    · obtain ⟨r, stands, path⟩ := member here
      exact ⟨r, List.mem_append_left _ stands, path⟩
    · obtain ⟨r, stands, path⟩ := ih later
      exact ⟨r, List.mem_append_right _ stands, path⟩
  | @single m members inner id _ _ _ _ rule _ inside ih =>
    rw [Token.targets_group] at mem
    rcases List.mem_append.mp mem with here | later
    · obtain ⟨r, stands, path⟩ := inside here
      exact ⟨id, by simp, .head (refers rule (first inner) stands) path⟩
    · obtain ⟨r, stands, path⟩ := ih later
      exact ⟨r, by simp [stands], path⟩
  | @repeated m members inner id body _ _ _ _ isBody rule _ inside ih =>
    rw [Token.targets_group] at mem
    rcases List.mem_append.mp mem with here | later
    · obtain ⟨r, stands, path⟩ := inside here
      refine ⟨id, by simp, ?_⟩
      have again : body ∈ [recursion.extend id body, body] := by simp
      rcases isBody with only | ⟨variants, rfl, several⟩
      · have same : inner.map (·.1) = body :=
          List.mem_singleton.mp (only ▸ first inner)
        exact .head (refers rule again (same ▸ stands)) path
      · exact .head (refers rule again (by simp))
          (.head (refers several (first inner) stands) path)
    · obtain ⟨r, stands, path⟩ := ih later
      exact ⟨r, by simp [stands], path⟩

/-- What tokens refer to, their plain tokens refer to, or a rule that was made
up does. -/
theorem Flattened.mentions {bound : Nat} {recursion : Recursion}
    {made : List (SymbolId × List (Alternative SymbolId))}
    {ts : Alternative SymbolId} {us : List (Token SymbolId × Bool)}
    (h : Flattened bound recursion made ts us) {t : SymbolId}
    (mem : t ∈ Token.targets ts) :
    t ∈ Token.targets (us.map (·.1)) ∨ ∃ rule ∈ made,
      t ∈ Grammar.ruleMentions rule := by
  obtain ⟨r, stands, path⟩ := h.reaches mem
  rcases ReflTransGen.cases_tail path with rfl | ⟨last, -, as, rule, target⟩
  · exact .inl stands
  · exact .inr ⟨_, rule, List.mem_cons_of_mem _ target⟩

theorem keys_eq_of_forall₂ {α β : Type} {t : Table SymbolId α}
    {s : Table SymbolId β} (h : List.Forall₂ (fun x y => y.1 = x.1) t s) :
    Table.keys s = Table.keys t := by
  induction h with
  | nil => rfl
  | cons here _ ih =>
    simp only [Table.keys, List.map_cons] at ih ⊢
    rw [here, ih]

theorem lt_of_mem_ruleTargets {g : Grammar} (known : g.WellScoped)
    {rule : SymbolId × List (Alternative SymbolId)} (mem : rule ∈ g.rules)
    {t : SymbolId} (target : t ∈ ruleTargets rule.2) :
    t < g.symbols.length := by
  obtain ⟨a, chosen, stands⟩ := List.mem_flatMap.mp target
  exact (known rule mem).2 a chosen t stands

namespace Grammar

/-- `h` is `g` made plain: its rules are those of `g` without groups, `flat`,
with the rules in `draft` put in. -/
structure PlainForm (recursion : Recursion) (flat : Rules) (draft : Draft)
    (h g : Grammar) : Prop where
  eq : h = { g with
    symbols := draft.symbols
    rules := flat.insertAll draft.created }
  extended : draft.Extends ⟨g.symbols, []⟩
  grows : draft.Grows recursion
    (fun p => ∃ rule ∈ g.rules, p ∈ rulePatterns rule.2)
    (fun t => ∃ rule ∈ g.rules, t ∈ ruleTargets rule.2) ⟨g.symbols, []⟩
  made : ∀ id, g.symbols.length ≤ id → id < draft.symbols.length →
    ∃ rule ∈ g.rules, MadeFor recursion draft.created rule.2 id
  flattened : List.Forall₂ (fun x y => y.1 = x.1 ∧
    FlattenedRule g.symbols.length recursion draft.created x.2 y.2) g.rules flat
  comes : List.Forall₂ (fun x y => y.1 = x.1 ∧
    ComesFrom recursion draft.created x.2 y.2) g.rules flat

/-- What making a well-scoped grammar plain gives. -/
theorem exists_plainForm {g h : Grammar} {recursion : Recursion}
    (known : g.WellScoped) (eq : g.plain recursion = .ok h) :
    ∃ flat draft, PlainForm recursion flat draft h g := by
  unfold plain flatten at eq
  split at eq
  · next rules draft run =>
    have old : ∀ rule ∈ g.rules, ∀ t ∈ ruleTargets rule.2,
        t < g.symbols.length :=
      fun rule mem t target => lt_of_mem_ruleTargets known mem target
    obtain ⟨extended, flattened⟩ :=
      flattenRules_eq_ok (fun rule mem => (known rule mem).2) run
    obtain ⟨grows, made, comes⟩ := flattenRules_grows old run
    exact ⟨rules, draft, (Except.ok.inj eq).symm, extended, grows, made,
      flattened, comes⟩
  · cases eq

namespace PlainForm

variable {recursion : Recursion} {flat : Rules} {draft : Draft} {h g : Grammar}

theorem keys_flat (form : PlainForm recursion flat draft h g) :
    Table.keys flat = Table.keys g.rules :=
  keys_eq_of_forall₂ (form.comes.imp fun _ _ rule => rule.1)

/-- Every made-up symbol has one rule, which is none of the grammar's. -/
theorem nodup_created (form : PlainForm recursion flat draft h g) :
    (Table.keys draft.created).Nodup := by
  obtain ⟨-, new, eq, nodup, -⟩ := form.extended
  rw [List.nil_append] at eq
  rwa [eq]

theorem bounds_of_created (form : PlainForm recursion flat draft h g)
    {id : SymbolId} (mem : id ∈ Table.keys draft.created) :
    g.symbols.length ≤ id ∧ id < draft.symbols.length := by
  obtain ⟨-, new, eq, -, bound⟩ := form.extended
  rw [List.nil_append] at eq
  exact bound id (eq ▸ mem)

theorem rules_eq (form : PlainForm recursion flat draft h g) :
    h.rules = flat.insertAll draft.created := by
  rw [form.eq]

theorem symbols_eq (form : PlainForm recursion flat draft h g) :
    h.symbols = draft.symbols := by
  rw [form.eq]

theorem mem_rules_iff (form : PlainForm recursion flat draft h g)
    (known : g.WellScoped) {rule : SymbolId × List (Alternative SymbolId)} :
    rule ∈ h.rules ↔ rule ∈ flat ∨ rule ∈ draft.created := by
  rw [form.rules_eq]
  constructor
  · exact Table.mem_insertAll
  · rintro (mem | mem)
    · refine Table.mem_insertAll_of_not_mem mem fun made => ?_
      have key : rule.1 ∈ Table.keys g.rules :=
        form.keys_flat ▸ List.mem_map_of_mem mem
      obtain ⟨source, stands, eq⟩ := List.mem_map.mp key
      exact Nat.not_lt_of_le (form.bounds_of_created made).1
        (eq ▸ (known source stands).1)
    · exact Table.mem_of_find?
        (Table.find?_insertAll_of_mem flat form.nodup_created mem)

/-- A made-up rule is the one that `MadeFor` speaks of. -/
theorem alternatives_of_madeFor (form : PlainForm recursion flat draft h g)
    {as : List (Alternative SymbolId)}
    {rule : SymbolId × List (Alternative SymbolId)} (mem : rule ∈ draft.created)
    (made : MadeFor recursion draft.created as rule.1) :
    RepeatsAt recursion rule.1 rule.2 ∧
      ComesFrom recursion draft.created as rule.2 := by
  obtain ⟨id, alternatives⟩ := rule
  cases made with
  | @rule _ alternatives' mem' patterns repeats targets =>
    have same := (Table.find?_of_mem form.nodup_created mem').symm.trans
      (Table.find?_of_mem form.nodup_created mem)
    obtain rfl := Option.some.inj same
    refine ⟨repeats, ?_, patterns, fun a chosen t target => ?_⟩
    · obtain ⟨a, chosen, -⟩ := repeats.base
      exact List.ne_nil_of_mem chosen
    · by_cases old : t ∈ ruleTargets as
      · exact .inl old
      · by_cases self : t = id
        · exact .inr (self ▸ .rule mem' patterns repeats targets)
        · exact .inr (targets a chosen t target self old)

/-- Every rule of the plain grammar comes from a rule of the grammar. -/
theorem exists_source (form : PlainForm recursion flat draft h g)
    (known : g.WellScoped) {rule : SymbolId × List (Alternative SymbolId)}
    (mem : rule ∈ h.rules) :
    ∃ source ∈ g.rules, ComesFrom recursion draft.created source.2 rule.2 := by
  rcases (form.mem_rules_iff known).mp mem with mem | mem
  · obtain ⟨source, stands, -, comes⟩ :=
      exists_mem_of_forall₂ form.comes.flip mem
    exact ⟨source, stands, comes⟩
  · obtain ⟨ge, lt⟩ := form.bounds_of_created (List.mem_map_of_mem mem)
    obtain ⟨source, stands, made⟩ := form.made rule.1 ge lt
    exact ⟨source, stands, (form.alternatives_of_madeFor mem made).2⟩

theorem lt_of_madeFor (form : PlainForm recursion flat draft h g)
    {as : List (Alternative SymbolId)} {t : SymbolId}
    (made : MadeFor recursion draft.created as t) :
    t < draft.symbols.length := by
  cases made with
  | rule mem _ _ _ =>
    exact (form.bounds_of_created (List.mem_map.mpr ⟨_, mem, rfl⟩)).2

theorem names_eq (form : PlainForm recursion flat draft h g) :
    h.names = namesIn draft.symbols := by
  rw [names, form.symbols_eq]

/-- Every symbol of the plain grammar is mentioned by a rule, if every symbol of
the grammar is. -/
theorem exists_mentions (form : PlainForm recursion flat draft h g)
    (known : g.WellScoped) (mentioned : ∀ id < g.symbols.length,
      ∃ rule ∈ g.rules, id ∈ ruleMentions rule)
    {id : SymbolId} (lt : id < draft.symbols.length) :
    ∃ rule ∈ h.rules, id ∈ ruleMentions rule := by
  by_cases old : id < g.symbols.length
  · obtain ⟨source, stands, mentions⟩ := mentioned id old
    obtain ⟨rule, mem, key, marked, all, eq⟩ :=
      exists_mem_of_forall₂ form.flattened stands
    have kept := (form.mem_rules_iff known).mpr (.inl mem)
    rcases List.mem_cons.mp mentions with own | target
    · exact ⟨rule, kept, by
        rw [ruleMentions, key, own]; exact List.mem_cons_self⟩
    · obtain ⟨a, chosen, target⟩ := List.mem_flatMap.mp target
      obtain ⟨us, plain, flat⟩ := exists_mem_of_forall₂ all chosen
      rcases flat.mentions target with first | ⟨made, mem, mentions⟩
      · refine ⟨rule, kept, List.mem_cons_of_mem _
          (List.mem_flatMap.mpr ⟨us.map (·.1), ?_, first⟩)⟩
        rw [eq]
        exact mem_withVariants.mpr
          ⟨us, plain, by rw [omissions_eq_cons]; exact List.mem_cons_self⟩
      · exact ⟨made, (form.mem_rules_iff known).mpr (.inr mem), mentions⟩
  · obtain ⟨source, -, made⟩ := form.made id (Nat.le_of_not_lt old) lt
    cases made with
    | rule mem _ _ _ =>
      exact ⟨_, (form.mem_rules_iff known).mpr (.inr mem), List.mem_cons_self⟩

end PlainForm

/-- Made plain, a tidy grammar is tidy. -/
theorem tidy_plain {g h : Grammar} {recursion : Recursion} (tidy : g.Tidy)
    (eq : g.plain recursion = .ok h) :
    h.Tidy := by
  obtain ⟨flat, draft, form⟩ := exists_plainForm tidy.known eq
  have grown : g.symbols.length ≤ draft.symbols.length := form.grows.length_le
  have keys : ∀ rule ∈ h.rules, rule.1 < draft.symbols.length := by
    intro rule mem
    rcases (form.mem_rules_iff tidy.known).mp mem with mem | mem
    · obtain ⟨source, stands, key, -⟩ :=
        exists_mem_of_forall₂ form.comes.flip mem
      exact key ▸ Nat.lt_of_lt_of_le (tidy.known source stands).1 grown
    · exact (form.bounds_of_created (List.mem_map_of_mem mem)).2
  have parameters : h.parameters = g.parameters := by rw [form.eq]
  have start : h.start = g.start := by rw [form.eq]
  exact {
    distinct := by
      rw [form.names_eq]
      exact form.grows.distinct tidy.distinct
    named := by
      obtain ⟨new, eq, names⟩ := form.grows.symbols
      rw [form.names_eq, eq, namesIn, List.map_append, List.forall_mem_append]
      exact ⟨tidy.named, List.forall_mem_map.mpr names⟩
    known := fun rule mem => by
      rw [form.symbols_eq]
      obtain ⟨source, stands, comes⟩ := form.exists_source tidy.known mem
      refine ⟨keys rule mem, fun a chosen t target => ?_⟩
      rcases comes.targets a chosen t target with old | made
      · exact Nat.lt_of_lt_of_le
          (lt_of_mem_ruleTargets tidy.known stands old) grown
      · exact form.lt_of_madeFor made
    mentioned := fun id lt => by
      rw [form.symbols_eq] at lt
      exact form.exists_mentions tidy.known tidy.mentioned lt
    ordered := by
      have ordered : flat.Ordered := by
        rw [Table.Ordered, form.keys_flat]
        exact tidy.ordered
      rw [form.rules_eq]
      exact ordered.insertAll
    rules := fun rule mem => by
      obtain ⟨source, stands, comes⟩ := form.exists_source tidy.known mem
      refine ⟨comes.nonempty, fun a chosen p stands' => ?_⟩
      obtain ⟨b, written, literal⟩ :=
        List.mem_flatMap.mp (comes.patterns a chosen p stands')
      exact (tidy.rules source stands).2 b written p literal
    parametersOrdered := parameters ▸ tidy.parametersOrdered
    parameters := parameters ▸ tidy.parameters
    started := fun id mem => by
      have mem := tidy.started id (start ▸ mem)
      rw [← form.keys_flat] at mem
      obtain ⟨rule, stands, rfl⟩ := List.mem_map.mp mem
      exact List.mem_map_of_mem
        ((form.mem_rules_iff tidy.known).mpr (.inl stands)) }

end Grammar

end Lexigram
