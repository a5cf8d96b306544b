import Mathlib.Data.Finset.Range
import Lexigram.Proofs.Grammar.PlainForm
import Lexigram.Proofs.Grammar.PlainLanguage

/-!
Runs of a draft. All that happens to a draft while groups are replaced is that a
symbol is made up, then what is in its group, and then its rule: what this keeps
holds from the first draft to the last (`Draft.Composes`). So no symbol is left
without its rule, whatever the grammar (`Draft.Completes`), and a plain grammar
is told by its last draft (`Grammar.exists_drafted`).
-/

namespace Lexigram

/-! ## Relations between drafts -/

/-- Whether a relation from a draft to a later one, `R d e`, composes to runs:
nothing happens, one run follows another, or a symbol is made up and has its
rule at the end of a run. -/
structure Draft.Composes (R : Draft → Draft → Prop) : Prop where
  refl (d : Draft) : R d d
  trans {d e f : Draft} : R d e → R e f → R d f
  rule {d e : Draft} (alternatives : List (Alternative SymbolId)) :
    R { d with symbols := d.symbols ++ [⟨freeName d.symbols, true⟩] } e →
      R d { e with created := e.created ++ [(d.symbols.length, alternatives)] }

section Runs

variable {R : Draft → Draft → Prop} (composes : Draft.Composes R)
  {recursion : Recursion} {d e : Draft}

include composes

theorem repeatedBody_composes {alternatives : List (Alternative SymbolId)}
    {body : Alternative SymbolId}
    (ran : repeatedBody alternatives d = .ok body e) : R d e := by
  unfold repeatedBody at ran
  split at ran
  · obtain ⟨-, rfl⟩ := Drafting.pure_eq_ok.mp ran
    exact composes.refl _
  · obtain ⟨id, _, fresh, ran⟩ := Drafting.bind_eq_ok.mp ran
    obtain ⟨rfl, rfl⟩ := Drafting.newSymbol_eq_ok.mp fresh
    obtain ⟨_, _, added, ran⟩ := Drafting.bind_eq_ok.mp ran
    obtain rfl := Drafting.addRule_eq_ok.mp added
    obtain ⟨-, rfl⟩ := Drafting.pure_eq_ok.mp ran
    exact composes.rule alternatives (composes.refl _)

theorem completeGroup_composes {m : Multiplicity}
    {alternatives : List (Alternative SymbolId)}
    {inside : Draft} {u : Unit} (members : R
      { d with symbols := d.symbols ++ [⟨freeName d.symbols, true⟩] } inside)
    (ran : completeGroup recursion m d.symbols.length alternatives inside
      = .ok u e) : R d e := by
  unfold completeGroup at ran
  split at ran
  · obtain ⟨body, later, repeats, added⟩ := Drafting.bind_eq_ok.mp ran
    obtain rfl := Drafting.addRule_eq_ok.mp added
    exact composes.rule _ (composes.trans members
      (repeatedBody_composes composes repeats))
  · obtain rfl := Drafting.addRule_eq_ok.mp ran
    exact composes.rule alternatives members

mutual

theorem flattenToken_composes (t : Token SymbolId)
    {owner : SymbolId} {u : Token SymbolId} {d e : Draft}
    (ran : flattenToken recursion owner t d = .ok u e) : R d e := by
  match t with
  | .literal p =>
    rw [flattenToken] at ran
    obtain ⟨-, rfl⟩ := Drafting.pure_eq_ok.mp ran
    exact composes.refl _
  | .reference target =>
    rw [flattenToken] at ran
    obtain ⟨-, rfl⟩ := Drafting.pure_eq_ok.mp ran
    exact composes.refl _
  | .group m members =>
    obtain ⟨-, ⟨-, rfl⟩ | ⟨inner, inside, flat, completed, -⟩⟩ :=
      flattenToken_group_eq_ok ran
    · exact composes.refl _
    · exact completeGroup_composes composes (flattenAll_composes members flat)
        completed

theorem flattenAll_composes (ts : List (Token SymbolId))
    {owner : SymbolId} {us : List (Token SymbolId × Bool)} {d e : Draft}
    (ran : flattenAll recursion owner ts d = .ok us e) : R d e := by
  match ts with
  | [] =>
    rw [flattenAll] at ran
    obtain ⟨-, rfl⟩ := Drafting.pure_eq_ok.mp ran
    exact composes.refl _
  | t :: ts =>
    rw [flattenAll] at ran
    obtain ⟨u, _, first, ran⟩ := Drafting.bind_eq_ok.mp ran
    obtain ⟨us, _, rest, ran⟩ := Drafting.bind_eq_ok.mp ran
    obtain ⟨-, rfl⟩ := Drafting.pure_eq_ok.mp ran
    exact composes.trans (flattenToken_composes t first)
      (flattenAll_composes ts rest)

end

theorem mapM_composes {α β : Type} {f : α → Drafting β}
    {xs : List α} {ys : List β} (step : ∀ {a b d e}, f a d = .ok b e → R d e)
    (ran : xs.mapM f d = .ok ys e) : R d e := by
  induction xs generalizing ys d with
  | nil =>
    rw [List.mapM_nil] at ran
    obtain ⟨-, rfl⟩ := Drafting.pure_eq_ok.mp ran
    exact composes.refl _
  | cons x xs ih =>
    rw [List.mapM_cons] at ran
    obtain ⟨y, _, first, ran⟩ := Drafting.bind_eq_ok.mp ran
    obtain ⟨ys, _, rest, ran⟩ := Drafting.bind_eq_ok.mp ran
    obtain ⟨-, rfl⟩ := Drafting.pure_eq_ok.mp ran
    exact composes.trans (step first) (ih rest)

/-- What composes holds from the draft at the start to the one with all rules
made plain. -/
theorem flattenRules_composes {rules flat : Rules}
    (ran : flattenRules recursion rules d = .ok flat e) :
    R d e := by
  refine mapM_composes composes (fun {rule y d e} ran => ?_) ran
  obtain ⟨as, _, made, done⟩ := Drafting.bind_eq_ok.mp ran
  obtain ⟨-, rfl⟩ := Drafting.pure_eq_ok.mp done
  unfold flattenRule at made
  split at made
  · exact absurd made Drafting.malformed_ne_ok
  · obtain ⟨marked, _, all, made⟩ := Drafting.bind_eq_ok.mp made
    obtain ⟨-, rfl⟩ := Drafting.pure_eq_ok.mp made
    exact mapM_composes composes
      (fun ran => flattenAll_composes composes _ ran) all

end Runs

/-! ## Drafts without symbols that lack a rule -/

/-- `e` is `d` with more symbols, each made up under a name of its own, and one
more rule for each of them. -/
structure Draft.Completes (d e : Draft) : Prop where
  symbols : ∃ new, e.symbols = d.symbols ++ new
    ∧ (∀ symbol ∈ new, symbol.synthetic = true)
    ∧ (namesIn new).Nodup ∧ (namesIn d.symbols).Disjoint (namesIn new)
  created : ∃ new, e.created = d.created ++ new
    ∧ (Table.keys new).Perm (List.range' d.symbols.length
      (e.symbols.length - d.symbols.length))

namespace Draft.Completes

variable {d e f : Draft}

theorem length_le (h : d.Completes e) :
    d.symbols.length ≤ e.symbols.length := by
  obtain ⟨new, eq, -⟩ := h.symbols
  rw [eq, List.length_append]
  exact Nat.le_add_right _ _

theorem refl (d : Draft) : d.Completes d where
  symbols := ⟨[], (List.append_nil _).symm, List.forall_mem_nil _,
    List.nodup_nil, List.disjoint_nil_right _⟩
  created := ⟨[], (List.append_nil _).symm, by rw [Nat.sub_self]; exact .nil⟩

theorem trans (first : d.Completes e) (second : e.Completes f) :
    d.Completes f where
  symbols := by
    obtain ⟨new₁, eq₁, made₁, distinct₁, apart₁⟩ := first.symbols
    obtain ⟨new₂, eq₂, made₂, distinct₂, apart₂⟩ := second.symbols
    rw [eq₁, namesIn, List.map_append, List.disjoint_append_left] at apart₂
    refine ⟨new₁ ++ new₂, by rw [eq₂, eq₁, List.append_assoc],
      List.forall_mem_append.mpr ⟨made₁, made₂⟩, ?_, ?_⟩
    · rw [namesIn, List.map_append]
      exact distinct₁.append distinct₂ apart₂.2
    · rw [namesIn, namesIn, List.map_append]
      exact List.disjoint_append_right.mpr ⟨apart₁, apart₂.1⟩
  created := by
    obtain ⟨new₁, eq₁, perm₁⟩ := first.created
    obtain ⟨new₂, eq₂, perm₂⟩ := second.created
    refine ⟨new₁ ++ new₂, by rw [eq₂, eq₁, List.append_assoc], ?_⟩
    have all : List.range' d.symbols.length
        (f.symbols.length - d.symbols.length)
        = List.range' d.symbols.length (e.symbols.length - d.symbols.length)
          ++ List.range' e.symbols.length
          (f.symbols.length - e.symbols.length) := by
      have middle : e.symbols.length
          = d.symbols.length + (e.symbols.length - d.symbols.length) :=
        (Nat.add_sub_of_le first.length_le).symm
      have total : f.symbols.length - d.symbols.length
          = (e.symbols.length - d.symbols.length)
          + (f.symbols.length - e.symbols.length) := by
        have := first.length_le
        have := second.length_le
        omega
      rw [total, ← List.range'_append_1, ← middle]
    rw [all, Table.keys, List.map_append]
    exact perm₁.append perm₂

/-- A symbol that is made up first and has its rule last completes what is made
up in between. -/
theorem rule (alternatives : List (Alternative SymbolId)) (h : Draft.Completes
      { d with symbols := d.symbols ++ [⟨freeName d.symbols, true⟩] } e) :
    d.Completes { e with
      created := e.created ++ [(d.symbols.length, alternatives)] } where
  symbols := by
    obtain ⟨new, eq, made, distinct, apart⟩ := h.symbols
    rw [namesIn, List.map_append, List.disjoint_append_left] at apart
    have free : freeName d.symbols ∉ namesIn new :=
      List.disjoint_left.mp apart.2 List.mem_cons_self
    refine ⟨⟨freeName d.symbols, true⟩ :: new,
      by rw [eq, List.append_assoc]; rfl, List.forall_mem_cons.mpr ⟨rfl, made⟩,
      List.nodup_cons.mpr ⟨free, distinct⟩, ?_⟩
    exact List.disjoint_cons_right.mpr ⟨freeName_not_mem d.symbols, apart.1⟩
  created := by
    have length := h.length_le
    obtain ⟨new, eq, perm⟩ := h.created
    rw [List.length_append, List.length_singleton] at perm length
    refine ⟨new ++ [(d.symbols.length, alternatives)],
      by rw [eq, List.append_assoc], ?_⟩
    -- the id of the symbol is the first of all, and its rule the last
    have first : List.range' d.symbols.length
        (e.symbols.length - d.symbols.length)
        = d.symbols.length :: List.range' (d.symbols.length + 1)
        (e.symbols.length - (d.symbols.length + 1)) := by
      rw [← List.range'_succ]
      congr 1
      omega
    rw [first, Table.keys, List.map_append]
    exact (List.perm_append_singleton _ _).trans (perm.cons _)

theorem composes : Draft.Composes Draft.Completes :=
  ⟨refl, trans, rule⟩

end Draft.Completes

/-! ## Plain grammars by their drafts -/

namespace Grammar

/-- `h` is `g` made plain: each rule of `g` has its plain alternatives in
`flat`, and the rules in `created`, made up for the groups, are put in at the
end. -/
structure DraftedAs (g h : Grammar) (bound : Nat) (recursion : Recursion)
    (flat : Rules) (created : List (SymbolId × List (Alternative SymbolId))) :
    Prop where
  eq : h = { g with symbols := h.symbols, rules := flat.insertAll created }
  completes : Draft.Completes ⟨g.symbols, []⟩ ⟨h.symbols, created⟩
  flattened : List.Forall₂ (fun x y => y.1 = x.1 ∧
    FlattenedRule bound recursion created x.2 y.2) g.rules flat

/-- The symbols that a grammar refers to are below some bound, whether or not
they are in its table. -/
theorem exists_bound (g : Grammar) :
    ∃ bound, ∀ rule ∈ g.rules, ∀ a ∈ rule.2, ∀ target : Nat,
      target ∈ Token.targets a → target < bound := by
  obtain ⟨bound, below⟩ :=
    (g.rules.flatMap ruleMentions).toFinset.exists_nat_subset_range
  refine ⟨bound, fun rule mem a chosen target stands => Finset.mem_range.mp
    (below ?_)⟩
  rw [List.mem_toFinset, List.mem_flatMap]
  exact ⟨rule, mem, List.mem_cons_of_mem _
    (List.mem_flatMap.mpr ⟨a, chosen, stands⟩)⟩

theorem exists_drafted {g h : Grammar} {recursion : Recursion}
    (made : g.plain recursion = .ok h) :
    ∃ bound flat created, g.DraftedAs h bound recursion flat created := by
  obtain ⟨bound, known⟩ := g.exists_bound
  unfold plain flatten at made
  split at made
  · next flat draft ran =>
    obtain rfl := Except.ok.inj made
    exact ⟨bound, flat, draft.created, rfl,
      flattenRules_composes Draft.Completes.composes ran,
      (flattenRules_eq_ok known ran).2⟩
  · cases made

namespace DraftedAs

variable {g h : Grammar} {bound : Nat} {recursion : Recursion} {flat : Rules}
  {created : List (SymbolId × List (Alternative SymbolId))}

theorem rules_eq (drafted : g.DraftedAs h bound recursion flat created) :
    h.rules = flat.insertAll created := by
  rw [drafted.eq]

theorem keys_flat (drafted : g.DraftedAs h bound recursion flat created) :
    Table.keys flat = Table.keys g.rules := by
  exact keys_eq_of_forall₂ (drafted.flattened.imp fun _ _ rule => rule.1)

/-- A rule is made up for each symbol that is. -/
theorem keys_created_perm
    (drafted : g.DraftedAs h bound recursion flat created) :
    (Table.keys created).Perm
      (List.range' g.symbols.length (h.symbols.length - g.symbols.length)) := by
  obtain ⟨new, eq, perm⟩ := drafted.completes.created
  obtain rfl : created = new := eq
  exact perm

theorem nodup_keys_created
    (drafted : g.DraftedAs h bound recursion flat created) :
    (Table.keys created).Nodup :=
  drafted.keys_created_perm.nodup_iff.mpr List.nodup_range'

theorem mem_keys_created (drafted : g.DraftedAs h bound recursion flat created)
    {id : SymbolId} :
    id ∈ Table.keys created ↔ g.symbols.length ≤ id ∧
      id < h.symbols.length := by
  have length : g.symbols.length ≤ h.symbols.length :=
    drafted.completes.length_le
  rw [drafted.keys_created_perm.mem_iff, List.mem_range'_1,
    Nat.add_sub_of_le length]

/-- The made-up rules are rules of the plain grammar. -/
theorem rule?_created (drafted : g.DraftedAs h bound recursion flat created)
    {id : SymbolId} {as : List (Alternative SymbolId)}
    (mem : (id, as) ∈ created) : h.rule? id = some as := by
  rw [rule?, drafted.rules_eq]
  exact Table.find?_insertAll_of_mem flat drafted.nodup_keys_created mem

/-- Other rules are there, made plain. -/
theorem exists_rule? (drafted : g.DraftedAs h bound recursion flat created)
    {id : SymbolId} {as : List (Alternative SymbolId)}
    (other : id ∉ Table.keys created) (rule : g.rule? id = some as) :
    ∃ flat, h.rule? id = some flat ∧
      FlattenedRule bound recursion created as flat := by
  have kept : h.rule? id = flat.find? id := by
    rw [rule?, drafted.rules_eq]
    exact Table.find?_insertAll_of_not_mem flat other
  rw [kept]
  rcases find?_eq_of_forall₂ drafted.flattened id with ⟨none, -⟩
    | ⟨as', flat', same, plain, flattened⟩
  · rw [rule?, none] at rule
    cases rule
  · obtain rfl := Option.some.inj (same.symm.trans rule)
    exact ⟨flat', plain, flattened⟩

theorem ordered (drafted : g.DraftedAs h bound recursion flat created)
    (ordered : g.rules.Ordered) :
    h.rules.Ordered := by
  have before : flat.Ordered := by
    rw [Table.Ordered, drafted.keys_flat]
    exact ordered
  rw [drafted.rules_eq]
  exact before.insertAll

theorem nodup_names (drafted : g.DraftedAs h bound recursion flat created)
    (distinct : g.names.Nodup) :
    h.names.Nodup := by
  obtain ⟨new, eq, -, own, apart⟩ := drafted.completes.symbols
  have eq : h.symbols = g.symbols ++ new := eq
  rw [names, eq, namesIn, List.map_append]
  exact distinct.append own apart

end DraftedAs

end Grammar

end Lexigram
