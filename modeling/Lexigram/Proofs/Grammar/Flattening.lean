import Mathlib.Data.List.Forall2
import Lexigram.Grammar.Plain

/-!
# Flattening

What `flattenAll` makes of a sequence of tokens, said without the draft it
threads along: `Flattened` relates a sequence to its plain tokens, given the
rules that were made up for its groups. Drafts only grow, by rules of fresh
symbols, so what holds of the rules at one moment holds at the end.
-/

namespace Lexigram

/-! ## Variants -/

section Omissions

variable {α : Type} {us vs : List (α × Bool)} {v : List α}

@[simp] theorem omissions_nil : omissions ([] : List (α × Bool)) = [[]] := rfl

theorem mem_omissions_cons {t : α} {nullable : Bool} :
    v ∈ omissions ((t, nullable) :: us) ↔
      (∃ v' ∈ omissions us, v = t :: v')
      ∨ (nullable = true ∧ v ∈ omissions us) := by
  cases nullable <;> simp [omissions, eq_comm]

theorem mem_omissions_append :
    v ∈ omissions (us ++ vs) ↔ ∃ a ∈ omissions us, ∃ b ∈ omissions vs,
      v = a ++ b := by
  induction us generalizing v with
  | nil => simp
  | cons u us ih =>
      obtain ⟨t, nullable⟩ := u
      simp only [List.cons_append, mem_omissions_cons, ih]
      constructor
      · rintro (⟨_, ⟨a, first, b, second, rfl⟩, rfl⟩
          | ⟨omitted, a, first, b, second, rfl⟩)
        · exact ⟨t :: a, .inl ⟨a, first, rfl⟩, b, second, rfl⟩
        · exact ⟨a, .inr ⟨omitted, first⟩, b, second, rfl⟩
      · rintro ⟨_, ⟨a, first, rfl⟩ | ⟨omitted, first⟩, b, second, rfl⟩
        · exact .inl ⟨a ++ b, ⟨a, first, b, second, rfl⟩, rfl⟩
        · exact .inr ⟨omitted, _, first, b, second, rfl⟩

/-- The first variant keeps every token. -/
theorem omissions_eq_cons (us : List (α × Bool)) :
    omissions us = us.map (·.1) :: (omissions us).tail := by
  induction us with
  | nil => rfl
  | cons u us ih =>
      obtain ⟨t, nullable⟩ := u
      rw [omissions, ih]
      rfl

end Omissions

/-! ## Drafts grow -/

/-- `e` is `d` with more symbols, and with rules for some of these, one each. -/
def Draft.Extends (e d : Draft) : Prop :=
  d.symbols.length ≤ e.symbols.length ∧
    ∃ new, e.created = d.created ++ new ∧ (Table.keys new).Nodup ∧
      ∀ id : Nat, id ∈ Table.keys new →
      d.symbols.length ≤ id ∧ id < e.symbols.length

namespace Draft.Extends

variable {d e f : Draft}

theorem refl (d : Draft) : d.Extends d :=
  ⟨Nat.le_refl _, [], (List.append_nil _).symm, List.nodup_nil,
    fun _ h => nomatch h⟩

theorem trans (first : e.Extends d) (second : f.Extends e) : f.Extends d := by
  obtain ⟨le₁, new₁, eq₁, nodup₁, bound₁⟩ := first
  obtain ⟨le₂, new₂, eq₂, nodup₂, bound₂⟩ := second
  refine ⟨Nat.le_trans le₁ le₂, new₁ ++ new₂,
    by rw [eq₂, eq₁, List.append_assoc], ?_, ?_⟩
  · -- the symbols of the first stretch were there before those of the second
    rw [Table.keys, List.map_append, List.nodup_append]
    refine ⟨nodup₁, nodup₂, fun a earlier b later same => ?_⟩
    subst same
    exact Nat.not_lt_of_le (bound₂ a later).1 (bound₁ a earlier).2
  · intro id h
    rw [Table.keys, List.map_append, List.mem_append] at h
    rcases h with h | h
    · exact ⟨(bound₁ id h).1, Nat.lt_of_lt_of_le (bound₁ id h).2 le₂⟩
    · exact ⟨Nat.le_trans le₁ (bound₂ id h).1, (bound₂ id h).2⟩

theorem created_subset (h : e.Extends d) : d.created ⊆ e.created := by
  obtain ⟨_, new, eq, _⟩ := h
  rw [eq]
  exact List.subset_append_left _ _

/-- A draft that grew to `e` from the moment a symbol was added can take the
rule of that symbol. -/
theorem addRule {symbol : Symbol} {alternatives : List (Alternative SymbolId)}
    (h : e.Extends { d with symbols := d.symbols ++ [symbol] }) :
    Draft.Extends { e with
      created := e.created ++ [(d.symbols.length, alternatives)] } d := by
  obtain ⟨le, new, eq, nodup, bound⟩ := h
  simp only [List.length_append, List.length_cons, List.length_nil] at le bound
  refine ⟨Nat.le_of_succ_le le, new ++ [(d.symbols.length, alternatives)],
    by simp [eq], ?_, ?_⟩
  · rw [Table.keys, List.map_append, List.nodup_append]
    refine ⟨nodup, by simp, fun a earlier b last same => ?_⟩
    obtain rfl : b = d.symbols.length := by simpa using last
    subst same
    exact Nat.not_succ_le_self _ (bound _ earlier).1
  · intro id h
    rw [Table.keys, List.map_append, List.mem_append] at h
    rcases h with h | h
    · exact ⟨Nat.le_of_succ_le (bound id h).1, (bound id h).2⟩
    · obtain rfl : id = d.symbols.length := by simpa using h
      exact ⟨Nat.le_refl _, le⟩

end Draft.Extends

/-! ## Steps that extend a draft -/

namespace Drafting

variable {α β : Type}

theorem bind_eq_ok {x : Drafting α} {f : α → Drafting β} {d e : Draft} {b : β} :
    (x >>= f) d = .ok b e ↔ ∃ a d', x d = .ok a d' ∧ f a d' = .ok b e := by
  show EStateM.bind x f d = .ok b e ↔ _
  unfold EStateM.bind
  cases x d with
  | ok a d' =>
      constructor
      · intro h
        exact ⟨a, d', rfl, h⟩
      · rintro ⟨_, _, ⟨⟩, h⟩
        exact h
  | error fault d' => simp

theorem pure_eq_ok {a b : α} {d e : Draft} :
    (pure a : Drafting α) d = .ok b e ↔ a = b ∧ d = e := by
  show EStateM.Result.ok a d = .ok b e ↔ _
  simp

theorem newSymbol_eq_ok {d e : Draft} {id : SymbolId} :
    newSymbol d = .ok id e ↔
      d.symbols.length = id ∧
      { d with symbols := d.symbols ++ [⟨freeName d.symbols, true⟩] } = e := by
  simp [newSymbol]

theorem addRule_eq_ok {id : SymbolId}
    {alternatives : List (Alternative SymbolId)} {d e : Draft} {u : Unit} :
    addRule id alternatives d = .ok u e ↔
      { d with created := d.created ++ [(id, alternatives)] } = e := by
  simp [addRule]

theorem malformed_ne_ok {owner : SymbolId} {how : Malformation} {d e : Draft}
    {a : α} :
    malformed owner how d ≠ .ok a e := by
  simp [malformed]

end Drafting

/-! ## The relation -/

section Flattened

variable (bound : Nat) (recursion : Recursion)
  (made : List (SymbolId × List (Alternative SymbolId)))

/-- What the rule of a repetition repeats, given the alternatives of its
members. -/
def IsBody (alternatives : List (Alternative SymbolId))
    (body : Alternative SymbolId) : Prop :=
  alternatives = [body] ∨ ∃ id, body = [.reference id] ∧
    (id, alternatives) ∈ made

/-- `Flattened bound recursion made ts us`: the plain tokens `us` stand for the
tokens `ts`, each with whether it may be left out. References in `ts` go to
symbols below `bound`, the rules in `made` were made up for groups. A token that
stands for a group stands for its occurrences other than none. -/
inductive Flattened :
    Alternative SymbolId → List (Token SymbolId × Bool) → Prop where
  | nil : Flattened [] []
  | literal {p ts us} (rest : Flattened ts us) :
      Flattened (.literal p :: ts) ((.literal p, false) :: us)
  | reference {t ts us} (known : t < bound) (rest : Flattened ts us) :
      Flattened (.reference t :: ts) ((.reference t, false) :: us)
  | inlined {m t ts us} (single : m.isRepeat = false) (leaf : t.isGroup = false)
      (member : Flattened [t] [(t, false)]) (rest : Flattened ts us) :
      Flattened (.group m [t] :: ts) ((t, m.isNullable) :: us)
  | single {m members inner id ts us} (single : m.isRepeat = false)
      (inside : Flattened members inner) (rule : (id, omissions inner) ∈ made)
      (rest : Flattened ts us) :
      Flattened (.group m members :: ts) ((.reference id, m.isNullable) :: us)
  | repeated {m members inner id body ts us}
      (repeats : m.isRepeat = true) (inside : Flattened members inner)
      (isBody : IsBody made (omissions inner) body)
      (rule : (id, [recursion.extend id body, body]) ∈ made)
      (rest : Flattened ts us) :
      Flattened (.group m members :: ts) ((.reference id, m.isNullable) :: us)

end Flattened

theorem IsBody.mono {made more : List (SymbolId × List (Alternative SymbolId))}
    {alternatives : List (Alternative SymbolId)} {body : Alternative SymbolId}
    (h : IsBody made alternatives body) (sub : made ⊆ more) :
    IsBody more alternatives body := by
  rcases h with only | ⟨id, eq, rule⟩
  · exact .inl only
  · exact .inr ⟨id, eq, sub rule⟩

namespace Flattened

variable {bound : Nat} {recursion : Recursion}
  {made more : List (SymbolId × List (Alternative SymbolId))}
  {ts ts' : Alternative SymbolId} {us us' : List (Token SymbolId × Bool)}

theorem append (first : Flattened bound recursion made ts us)
    (second : Flattened bound recursion made ts' us') :
    Flattened bound recursion made (ts ++ ts') (us ++ us') := by
  induction first with
  | nil => exact second
  | literal _ ih => exact .literal ih
  | reference known _ ih => exact .reference known ih
  | inlined single leaf member _ _ ih => exact .inlined single leaf member ih
  | single single inside rule _ _ ih => exact .single single inside rule ih
  | repeated repeats inside isBody rule _ _ ih =>
    exact .repeated repeats inside isBody rule ih

/-- Tokens are made plain one by one. -/
theorem uncons {t : Token SymbolId}
    (h : Flattened bound recursion made (t :: ts) us) :
    ∃ u us', us = (u, t.isNullable) :: us' ∧
      Flattened bound recursion made [t] [(u, t.isNullable)] ∧
      Flattened bound recursion made ts us' := by
  cases h with
  | literal rest => exact ⟨_, _, rfl, .literal .nil, rest⟩
  | reference known rest => exact ⟨_, _, rfl, .reference known .nil, rest⟩
  | inlined single leaf member rest =>
    exact ⟨_, _, rfl, .inlined single leaf member .nil, rest⟩
  | single single inside rule rest =>
    exact ⟨_, _, rfl, .single single inside rule .nil, rest⟩
  | repeated repeats inside isBody rule rest =>
      exact ⟨_, _, rfl, .repeated repeats inside isBody rule .nil, rest⟩

theorem mono (h : Flattened bound recursion made ts us) (sub : made ⊆ more) :
    Flattened bound recursion more ts us := by
  induction h with
  | nil => exact .nil
  | literal _ ih => exact .literal ih
  | reference known _ ih => exact .reference known ih
  | inlined single leaf _ _ member ih => exact .inlined single leaf member ih
  | single single _ rule _ inside ih =>
    exact .single single inside (sub rule) ih
  | repeated repeats _ isBody rule _ inside ih =>
    exact .repeated repeats inside (isBody.mono sub) (sub rule) ih

end Flattened

/-! ## Tokens and rules -/

section Spec

variable {bound : Nat} {recursion : Recursion} {owner : SymbolId}

theorem inlined?_eq_some {m : Multiplicity} {members : List (Token SymbolId)}
    {t : Token SymbolId} (h : inlined? m members = some t) :
    members = [t] ∧ m.isRepeat = false ∧ t.isGroup = false := by
  unfold inlined? at h
  split at h
  · split at h
    · cases h
    · next plain =>
        cases h
        simpa using plain
  · cases h

theorem repeatedBody_eq_ok {alternatives : List (Alternative SymbolId)}
    {body : Alternative SymbolId} {d e : Draft}
    (h : repeatedBody alternatives d = .ok body e) :
    e.Extends d ∧ IsBody e.created alternatives body := by
  unfold repeatedBody at h
  split at h
  · next only =>
      obtain ⟨rfl, rfl⟩ := Drafting.pure_eq_ok.mp h
      exact ⟨.refl _, .inl rfl⟩
  · obtain ⟨id, _, fresh, h⟩ := Drafting.bind_eq_ok.mp h
    obtain ⟨rfl, rfl⟩ := Drafting.newSymbol_eq_ok.mp fresh
    obtain ⟨_, _, added, h⟩ := Drafting.bind_eq_ok.mp h
    obtain rfl := Drafting.addRule_eq_ok.mp added
    obtain ⟨rfl, rfl⟩ := Drafting.pure_eq_ok.mp h
    exact ⟨(Draft.Extends.refl _).addRule, .inr ⟨_, rfl, by simp⟩⟩

/-- The rule of a group is complete: the reference to it stands for the
group. -/
theorem completeGroup_eq_ok {m : Multiplicity}
    {members : List (Token SymbolId)} {inner : List (Token SymbolId × Bool)}
    {symbol : Symbol} {d inside e : Draft} {u : Unit}
    (grown : inside.Extends { d with symbols := d.symbols ++ [symbol] })
    (flat : Flattened bound recursion inside.created members inner)
    (h : completeGroup recursion m d.symbols.length (omissions inner) inside
      = .ok u e) :
    e.Extends d ∧
      Flattened bound recursion e.created [.group m members]
      [(.reference d.symbols.length, m.isNullable)] := by
  unfold completeGroup at h
  split at h
  · next repeats =>
      obtain ⟨body, later, isBody, added⟩ := Drafting.bind_eq_ok.mp h
      obtain ⟨more, isBody⟩ := repeatedBody_eq_ok isBody
      obtain rfl := Drafting.addRule_eq_ok.mp added
      have sub : later.created ⊆
          later.created ++ [(d.symbols.length,
            [recursion.extend d.symbols.length body, body])] :=
        List.subset_append_left _ _
      have inside := (flat.mono more.created_subset).mono sub
      have isBody := isBody.mono sub
      exact ⟨(grown.trans more).addRule,
        .repeated repeats inside isBody (by simp) .nil⟩
  · next once =>
      obtain rfl := Drafting.addRule_eq_ok.mp h
      have inside := flat.mono (List.subset_append_left _
        [(d.symbols.length, omissions inner)])
      exact ⟨grown.addRule, .single (by simpa using once) inside (by simp) .nil⟩

theorem Token.targets_cons_group (m : Multiplicity)
    (members ts : List (Token SymbolId)) :
    Token.targets (.group m members :: ts)
      = Token.targets members ++ Token.targets ts := by
  have own : Token.target? (.group m members : Token SymbolId) = none := rfl
  simp [Token.targets, Token.postorder, List.filterMap_append, own]

theorem Token.targets_cons (t : Token SymbolId) (ts : List (Token SymbolId)) :
    Token.targets (t :: ts) = Token.targets [t] ++ Token.targets ts := by
  simp [Token.targets]

/-- A group comes to its only token, or to a reference to the symbol that was
made up for it. -/
theorem flattenToken_group_eq_ok {m : Multiplicity}
    {members : List (Token SymbolId)} {u : Token SymbolId} {d e : Draft}
    (h : flattenToken recursion owner (.group m members) d = .ok u e) :
    members ≠ [] ∧ (inlined? m members = some u ∧ e = d ∨
      ∃ inner inside, flattenAll recursion d.symbols.length members
          { d with symbols := d.symbols ++ [⟨freeName d.symbols, true⟩] }
          = .ok inner inside
        ∧ completeGroup recursion m d.symbols.length (omissions inner) inside
          = .ok () e
        ∧ u = .reference d.symbols.length) := by
  rw [flattenToken] at h
  split at h
  · exact absurd h Drafting.malformed_ne_ok
  · next some =>
      refine ⟨by simpa using some, ?_⟩
      cases inlined : inlined? m members with
      | some leaf =>
          rw [inlined] at h
          obtain ⟨rfl, rfl⟩ := Drafting.pure_eq_ok.mp h
          exact .inl ⟨rfl, rfl⟩
      | none =>
          rw [inlined] at h
          obtain ⟨id, _, fresh, h⟩ := Drafting.bind_eq_ok.mp h
          obtain ⟨rfl, rfl⟩ := Drafting.newSymbol_eq_ok.mp fresh
          obtain ⟨inner, inside, flat, h⟩ := Drafting.bind_eq_ok.mp h
          obtain ⟨_, _, completed, h⟩ := Drafting.bind_eq_ok.mp h
          obtain ⟨rfl, rfl⟩ := Drafting.pure_eq_ok.mp h
          exact .inr ⟨inner, inside, flat, completed, rfl⟩

mutual

theorem flattened_of_flattenToken (t : Token SymbolId)
    {owner : SymbolId} {u : Token SymbolId} {d e : Draft}
    (known : ∀ target : Nat, target ∈ Token.targets [t] → target < bound)
    (h : flattenToken recursion owner t d = .ok u e) :
    e.Extends d ∧ Flattened bound recursion e.created [t]
      [(u, t.isNullable)] := by
  match t with
  | .literal p =>
      rw [flattenToken] at h
      obtain ⟨rfl, rfl⟩ := Drafting.pure_eq_ok.mp h
      exact ⟨.refl _, .literal .nil⟩
  | .reference target =>
      rw [flattenToken] at h
      obtain ⟨rfl, rfl⟩ := Drafting.pure_eq_ok.mp h
      exact ⟨.refl _, .reference (known target List.mem_cons_self) .nil⟩
  | .group m members =>
      rw [Token.targets_cons_group] at known
      have inside : ∀ target : Nat, target ∈ Token.targets members →
          target < bound :=
        fun target h => known target (List.mem_append_left _ h)
      obtain ⟨-, ⟨inlined, rfl⟩ | ⟨inner, later, flat, completed, rfl⟩⟩ :=
        flattenToken_group_eq_ok h
      · obtain ⟨rfl, single, isLeaf⟩ := inlined?_eq_some inlined
        refine ⟨.refl _, .inlined single isLeaf ?_ .nil⟩
        match u, isLeaf, inside with
        | .literal p, _, _ => exact .literal .nil
        | .reference target, _, inside =>
          exact .reference (inside target List.mem_cons_self) .nil
      · obtain ⟨grown, flat⟩ := flattened_of_flattenAll members inside flat
        exact completeGroup_eq_ok grown flat completed

theorem flattened_of_flattenAll (ts : List (Token SymbolId)) {owner : SymbolId}
    {us : List (Token SymbolId × Bool)} {d e : Draft}
    (known : ∀ target : Nat, target ∈ Token.targets ts → target < bound)
    (h : flattenAll recursion owner ts d = .ok us e) :
    e.Extends d ∧ Flattened bound recursion e.created ts us := by
  match ts with
  | [] =>
      rw [flattenAll] at h
      obtain ⟨rfl, rfl⟩ := Drafting.pure_eq_ok.mp h
      exact ⟨.refl _, .nil⟩
  | t :: ts =>
      rw [Token.targets_cons] at known
      rw [flattenAll] at h
      obtain ⟨u, _, first, h⟩ := Drafting.bind_eq_ok.mp h
      obtain ⟨us, _, rest, h⟩ := Drafting.bind_eq_ok.mp h
      obtain ⟨rfl, rfl⟩ := Drafting.pure_eq_ok.mp h
      obtain ⟨grown, flat⟩ :=
        flattened_of_flattenToken t
          (fun target h => known target (List.mem_append_left _ h)) first
      obtain ⟨more, flatRest⟩ :=
        flattened_of_flattenAll ts
          (fun target h => known target (List.mem_append_right _ h)) rest
      exact ⟨grown.trans more, (flat.mono more.created_subset).append flatRest⟩

end

end Spec

/-! ## Rules -/

theorem Drafting.forall₂_of_mapM {α β : Type}
    {f : α → Drafting β} (R : Draft → α → β → Prop)
    {xs : List α} (mono : ∀ {d e a b}, e.Extends d → R d a b → R e a b)
    (step : ∀ {d e a b}, a ∈ xs → f a d = .ok b e → e.Extends d ∧ R e a b)
    {ys : List β} {d e : Draft} (h : xs.mapM f d = .ok ys e) :
    e.Extends d ∧ List.Forall₂ (R e) xs ys := by
  induction xs generalizing ys d with
  | nil =>
      rw [List.mapM_nil] at h
      obtain ⟨rfl, rfl⟩ := Drafting.pure_eq_ok.mp h
      exact ⟨.refl _, .nil⟩
  | cons x xs ih =>
      rw [List.mapM_cons] at h
      obtain ⟨y, _, first, h⟩ := Drafting.bind_eq_ok.mp h
      obtain ⟨ys, _, rest, h⟩ := Drafting.bind_eq_ok.mp h
      obtain ⟨rfl, rfl⟩ := Drafting.pure_eq_ok.mp h
      obtain ⟨grown, here⟩ := step List.mem_cons_self first
      obtain ⟨more, there⟩ :=
        ih (fun mem => step (List.mem_cons_of_mem _ mem)) rest
      exact ⟨grown.trans more, .cons (mono more here) there⟩

theorem exists_mem_of_forall₂ {α β : Type} {R : α → β → Prop} {xs : List α}
    {ys : List β} {x : α} (h : List.Forall₂ R xs ys) (mem : x ∈ xs) :
    ∃ y ∈ ys, R x y := by
  induction h with
  | nil => cases mem
  | cons here _ ih =>
      rcases List.mem_cons.mp mem with rfl | later
      · exact ⟨_, List.mem_cons_self, here⟩
      · obtain ⟨y, mem, related⟩ := ih later
        exact ⟨y, List.mem_cons_of_mem _ mem, related⟩

/-- The alternatives of a rule, the variants behind them. -/
def withVariants (marked : List (List (Token SymbolId × Bool))) :
    List (Alternative SymbolId) :=
  marked.map (·.map (·.1)) ++ marked.flatMap fun us => (omissions us).tail

theorem mem_withVariants {marked : List (List (Token SymbolId × Bool))}
    {v : Alternative SymbolId} :
    v ∈ withVariants marked ↔ ∃ us ∈ marked, v ∈ omissions us := by
  rw [withVariants, List.mem_append, List.mem_map, List.mem_flatMap]
  constructor
  · rintro (⟨us, mem, rfl⟩ | ⟨us, mem, tail⟩)
    · exact ⟨us, mem, by rw [omissions_eq_cons]; exact List.mem_cons_self⟩
    · exact ⟨us, mem, List.mem_of_mem_tail tail⟩
  · rintro ⟨us, mem, h⟩
    rw [omissions_eq_cons] at h
    rcases List.mem_cons.mp h with rfl | tail
    · exact .inl ⟨us, mem, rfl⟩
    · exact .inr ⟨us, mem, tail⟩

/-- The plain alternatives `flat` stand for the alternatives `as` of a rule. -/
def FlattenedRule (bound : Nat) (recursion : Recursion)
    (made : List (SymbolId × List (Alternative SymbolId)))
    (as flat : List (Alternative SymbolId)) : Prop :=
  ∃ marked, List.Forall₂ (Flattened bound recursion made) as marked ∧
    flat = withVariants marked

theorem FlattenedRule.mono {bound : Nat} {recursion : Recursion}
    {made more : List (SymbolId × List (Alternative SymbolId))}
    {as flat : List (Alternative SymbolId)}
    (h : FlattenedRule bound recursion made as flat) (sub : made ⊆ more) :
    FlattenedRule bound recursion more as flat := by
  obtain ⟨marked, all, eq⟩ := h
  exact ⟨marked, all.imp fun _ _ flat => flat.mono sub, eq⟩

theorem flattenRule_eq_ok {bound : Nat} {recursion : Recursion}
    {owner : SymbolId} {as flat : List (Alternative SymbolId)} {d e : Draft}
    (known : ∀ a ∈ as, ∀ target : Nat, target ∈ Token.targets a →
      target < bound) (h : flattenRule recursion owner as d = .ok flat e) :
    e.Extends d ∧ FlattenedRule bound recursion e.created as flat := by
  unfold flattenRule at h
  split at h
  · exact absurd h Drafting.malformed_ne_ok
  · obtain ⟨marked, _, all, h⟩ := Drafting.bind_eq_ok.mp h
    obtain ⟨rfl, rfl⟩ := Drafting.pure_eq_ok.mp h
    obtain ⟨grown, all⟩ :=
      Drafting.forall₂_of_mapM (fun d => Flattened bound recursion d.created)
        (fun more flat => flat.mono more.created_subset)
        (fun mem flat => flattened_of_flattenAll _ (known _ mem) flat) all
    exact ⟨grown, marked, all, rfl⟩

theorem flattenRules_eq_ok {bound : Nat} {recursion : Recursion}
    {rules flat : Rules} {d e : Draft} (known : ∀ rule ∈ rules,
      ∀ a ∈ rule.2, ∀ target : Nat, target ∈ Token.targets a → target < bound)
    (h : flattenRules recursion rules d = .ok flat e) :
    e.Extends d ∧ List.Forall₂ (fun x y => y.1 = x.1 ∧
      FlattenedRule bound recursion e.created x.2 y.2) rules flat := by
  refine Drafting.forall₂_of_mapM
    (fun d (x y : SymbolId × List (Alternative SymbolId)) =>
      y.1 = x.1 ∧ FlattenedRule bound recursion d.created x.2 y.2)
    (fun more rule => ⟨rule.1, rule.2.mono more.created_subset⟩)
    (fun {d e rule y} mem ran => ?_) h
  obtain ⟨id, as⟩ := rule
  obtain ⟨flat, _, made, done⟩ := Drafting.bind_eq_ok.mp ran
  obtain ⟨rfl, rfl⟩ := Drafting.pure_eq_ok.mp done
  obtain ⟨grown, flat⟩ := flattenRule_eq_ok (known (id, as) mem) made
  exact ⟨grown, rfl, flat⟩

end Lexigram
