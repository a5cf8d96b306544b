import Mathlib.Data.List.Induction
import Lexigram.Proofs.Grammar.Derivation
import Lexigram.Proofs.Grammar.Flattening

/-!
# The language of a plain grammar

A grammar made plain derives from every symbol of the grammar the same literals
as before. Derivations are carried over both ways along `Flattened`: a sequence
of tokens derives what some variant of its plain tokens derives.
-/

namespace Lexigram

/-- `h` is `g` made plain: `made` holds the rules made up for groups, which
belong to symbols from `bound` on, and the rules of the symbols below are those
of `g` without groups. -/
structure Grammar.PlainOf (bound : Nat) (recursion : Recursion)
    (made : List (SymbolId × List (Alternative SymbolId))) (h g : Grammar) :
    Prop where
  fresh : ∀ {id : Nat} {as}, (id, as) ∈ made → bound ≤ id ∧ h.rule? id = some as
  known : ∀ id : Nat, id < bound → (g.rule? id = none ∧ h.rule? id = none) ∨
    ∃ as flat, g.rule? id = some as ∧ h.rule? id = some flat ∧
    FlattenedRule bound recursion made as flat

section Language

variable {bound : Nat} {recursion : Recursion}
  {made : List (SymbolId × List (Alternative SymbolId))} {g h : Grammar}
  {ts v : Alternative SymbolId} {us inner : List (Token SymbolId × Bool)}
  {w : List String}

/-! ## From the grammar to the plain one -/

theorem FlattenedRule.exists_of_mem
    {as flat : List (Alternative SymbolId)} {a : Alternative SymbolId}
    (rule : FlattenedRule bound recursion made as flat) (mem : a ∈ as) :
    ∃ us, Flattened bound recursion made a us ∧ ∀ v ∈ omissions us,
      v ∈ flat := by
  obtain ⟨marked, all, rfl⟩ := rule
  obtain ⟨us, mem, flat⟩ := exists_mem_of_forall₂ all mem
  exact ⟨us, flat, fun v listed => mem_withVariants.mpr ⟨us, mem, listed⟩⟩

/-- The body of a repetition derives what a variant of the members derives. -/
theorem IsBody.derives {body : Alternative SymbolId}
    (plain : h.PlainOf bound recursion made g)
    (isBody : IsBody made (omissions inner) body)
    (variant : v ∈ omissions inner) (derived : h.Derives v w) :
    h.Derives body w := by
  rcases isBody with only | ⟨id, rfl, rule⟩
  · rw [only, List.mem_singleton] at variant
    exact variant ▸ derived
  · exact .of_rule (plain.fresh rule).2 variant derived

/-- The rule of a repetition derives every sequence of words of its body but the
empty one. -/
theorem derives_repetition {id : SymbolId} {body : Alternative SymbolId}
    (rule : h.rule? id = some [recursion.extend id body, body])
    {words : List (List String)} (inside : ∀ v ∈ words, h.Derives body v)
    (pos : words ≠ []) :
    h.Derives [.reference id] words.flatten := by
  cases recursion with
  | right =>
      induction words with
      | nil => exact absurd rfl pos
      | cons word words ih =>
          have first := inside word List.mem_cons_self
          by_cases last : words = []
          · subst last
            simpa using Grammar.Derives.of_rule rule (by simp) first
          · have later :=
              ih (fun v mem => inside v (List.mem_cons_of_mem _ mem)) last
            exact .of_rule rule List.mem_cons_self (first.append later)
  | left =>
      induction words using List.reverseRecOn with
      | nil => exact absurd rfl pos
      | append_singleton words word ih =>
          have final := inside word (by simp)
          by_cases first : words = []
          · subst first
            simpa using Grammar.Derives.of_rule rule (by simp) final
          · have before :=
              ih (fun v mem => inside v (List.mem_append_left _ mem)) first
            have both := before.append final
            simpa using Grammar.Derives.of_rule rule List.mem_cons_self both

/-- Occurrences of a group, at least one, are derived by the token that stands
for it. -/
theorem derives_of_occurrences {m : Multiplicity}
    {members : Alternative SymbolId} {u : Token SymbolId} {b : Bool}
    {words : List (List String)} (plain : h.PlainOf bound recursion made g)
    (flat : Flattened bound recursion made [.group m members] [(u, b)])
    (allowed : m.Allows words.length) (pos : words ≠ []) (inside :
      ∀ word ∈ words, ∀ {us}, Flattened bound recursion made members us →
      ∃ v ∈ omissions us, h.Derives v word) :
    h.Derives [u] words.flatten := by
  have once : m.isRepeat = false → ∃ word, words = [word] := by
    intro single
    have := allowed.le_one single
    have := List.length_pos_iff.mpr pos
    exact List.length_eq_one_iff.mp (by omega)
  cases flat with
  | inlined single _ member _ =>
      obtain ⟨word, rfl⟩ := once single
      obtain ⟨v, variant, derived⟩ := inside word (by simp) member
      obtain rfl : v = [u] := by simpa [omissions] using variant
      simpa using derived
  | single single members rule _ =>
      obtain ⟨word, rfl⟩ := once single
      obtain ⟨v, variant, derived⟩ := inside word (by simp) members
      simpa using Grammar.Derives.of_rule (plain.fresh rule).2 variant derived
  | repeated _ members isBody rule _ =>
      refine derives_repetition (plain.fresh rule).2 (fun word mem => ?_) pos
      obtain ⟨v, variant, derived⟩ := inside word mem members
      exact isBody.derives plain variant derived

/-- What tokens derive in the grammar, some variant of their plain tokens
derives in the plain one. -/
theorem exists_omissions_of_derives (plain : h.PlainOf bound recursion made g)
    (derived : g.Derives ts w) (flat : Flattened bound recursion made ts us) :
    ∃ v ∈ omissions us, h.Derives v w := by
  induction derived generalizing us with
  | nil =>
      cases flat
      exact ⟨[], by simp, .nil⟩
  | literal _ ih =>
      cases flat with
      | literal rest =>
          obtain ⟨v, variant, derived⟩ := ih rest
          exact ⟨_ :: v, mem_omissions_cons.mpr (.inl ⟨v, variant, rfl⟩),
            .literal derived⟩
  | reference rule chosen _ _ inside ih =>
      cases flat with
      | reference known rest =>
          obtain ⟨v, variant, derived⟩ := ih rest
          rcases plain.known _ known with ⟨none, _⟩
            | ⟨as, flat, same, plainRule, flattened⟩
          · rw [none] at rule
            cases rule
          · obtain rfl := Option.some.inj (same.symm.trans rule)
            obtain ⟨us, flat, sub⟩ := flattened.exists_of_mem chosen
            obtain ⟨a, first, derivedFirst⟩ := inside flat
            exact ⟨_ :: v, mem_omissions_cons.mpr (.inl ⟨v, variant, rfl⟩),
              .reference plainRule (sub a first) derivedFirst derived⟩
  | @group m members ts w words allowed _ _ inside ih =>
      obtain ⟨u, us, rfl, first, rest⟩ := flat.uncons
      obtain ⟨v, variant, derived⟩ := ih rest
      by_cases none : words = []
      · subst none
        exact ⟨v, mem_omissions_cons.mpr (.inr ⟨allowed.isNullable, variant⟩),
          derived⟩
      · have kept := derives_of_occurrences plain first allowed none inside
        exact ⟨u :: v, mem_omissions_cons.mpr (.inl ⟨v, variant, rfl⟩),
          kept.append derived⟩

/-! ## From the plain grammar back -/

theorem FlattenedRule.exists_of_mem_flat {as flat : List (Alternative SymbolId)}
    (rule : FlattenedRule bound recursion made as flat) (mem : v ∈ flat) :
    ∃ a ∈ as, ∃ us, Flattened bound recursion made a us ∧ v ∈ omissions us := by
  obtain ⟨marked, all, rfl⟩ := rule
  obtain ⟨us, mem, variant⟩ := mem_withVariants.mp mem
  obtain ⟨a, known, flat⟩ := exists_mem_of_forall₂ all.flip mem
  exact ⟨a, known, us, flat, variant⟩

/-- A token that may be left out derives nothing at all. -/
theorem Grammar.Derives.leave_out {t : Token SymbolId}
    (nullable : t.isNullable = true) (rest : g.Derives ts w) :
    g.Derives (t :: ts) w := by
  match t, nullable with
  | .group _ _, nullable =>
      exact .group [] (Multiplicity.Allows.of_isNullable nullable)
        (fun _ h => nomatch h) rest

/-- If all plain tokens may be left out, the tokens derive nothing at all. -/
theorem derives_nil_of_flattened (flat : Flattened bound recursion made ts us)
    (variant : [] ∈ omissions us) :
    g.Derives ts [] := by
  induction ts generalizing us with
  | nil => exact .nil
  | cons t ts ih =>
      obtain ⟨u, us, rfl, _, rest⟩ := flat.uncons
      rcases mem_omissions_cons.mp variant with ⟨_, _, eq⟩ | ⟨nullable, variant⟩
      · cases eq
      · exact (ih rest variant).leave_out nullable

/-- The first token of a variant stands for some token `t`, and what is in front
of `t` was left out. -/
theorem exists_kept {u : Token SymbolId}
    (flat : Flattened bound recursion made ts us)
    (variant : u :: v ∈ omissions us) :
    ∃ t b ts' us', Flattened bound recursion made [t] [(u, b)] ∧
      Flattened bound recursion made ts' us' ∧ v ∈ omissions us' ∧
      ∀ w₁ w₂, g.Derives [t] w₁ → g.Derives ts' w₂ →
      g.Derives ts (w₁ ++ w₂) := by
  induction ts generalizing us with
  | nil =>
      cases flat
      simp at variant
  | cons t ts ih =>
      obtain ⟨u', us, rfl, first, rest⟩ := flat.uncons
      rcases mem_omissions_cons.mp variant with ⟨v', variant, eq⟩
        | ⟨nullable, variant⟩
      · obtain ⟨rfl, rfl⟩ := List.cons.inj eq
        exact ⟨t, _, ts, us, first, rest, variant,
          fun _ _ h₁ h₂ => h₁.append h₂⟩
      · obtain ⟨t', b, ts', us', first, rest, variant, both⟩ := ih rest variant
        exact ⟨t', b, ts', us', first, rest, variant,
          fun w₁ w₂ h₁ h₂ => (both w₁ w₂ h₁ h₂).leave_out nullable⟩

/-- What a literal stands for derives that literal. -/
theorem derives_of_literal {t : Token SymbolId} {p : String} {b : Bool}
    (flat : Flattened bound recursion made [t] [(.literal p, b)]) :
    g.Derives [t] [p] := by
  cases flat with
  | literal _ => exact .literal .nil
  | inlined _ _ member _ =>
      cases member with
      | literal _ =>
          exact Grammar.Derives.group_iff.mpr
            ⟨[[p]], .of_one _, by simpa using .literal .nil, by simp⟩

/-- The body of a repetition is a variant of plain tokens itself, for tokens
that derive what the members do. -/
theorem IsBody.exists_flattened {members body : Alternative SymbolId}
    (isBody : IsBody made (omissions inner) body)
    (inside : Flattened bound recursion made members inner) :
    ∃ ts us, Flattened bound recursion made ts us ∧ body ∈ omissions us ∧
      ∀ w, g.Derives ts w → g.Derives members w := by
  rcases isBody with only | ⟨id, rfl, rule⟩
  · exact ⟨members, inner, inside, by simp [only], fun _ h => h⟩
  · refine ⟨[.group .one members], [(.reference id, false)],
      .single rfl inside rule .nil,
      by simp [omissions], fun w h => ?_⟩
    obtain ⟨words, allowed, derived, rfl⟩ := Grammar.Derives.group_iff.mp h
    obtain ⟨word, rfl⟩ := List.length_eq_one_iff.mp allowed
    simpa using derived word (by simp)

/-- What a chosen alternative `a` of the rule of a reference derives, the token
derives that the reference stands for. That `a` derives a word is given as it is
known within an induction: for all tokens that `a` is a variant of. -/
theorem derives_of_reference {t : Token SymbolId} {id : SymbolId}
    {b : Bool} {a : Alternative SymbolId} {as : List (Alternative SymbolId)}
    (plain : h.PlainOf bound recursion made g)
    (flat : Flattened bound recursion made [t] [(.reference id, b)])
    (rule : h.rule? id = some as) (chosen : a ∈ as)
    (inside : ∀ {ts us}, Flattened bound recursion made ts us →
      a ∈ omissions us → g.Derives ts w) :
    g.Derives [t] w := by
  have known : id < bound → g.Derives [.reference id] w := by
    intro known
    rcases plain.known id known with ⟨_, none⟩
      | ⟨as, flat, same, plainRule, flattened⟩
    · rw [none] at rule
      cases rule
    · obtain rfl := Option.some.inj (plainRule.symm.trans rule)
      obtain ⟨a', mem, us, flat, variant⟩ := flattened.exists_of_mem_flat chosen
      exact .of_rule same mem (inside flat variant)
  have once : ∀ {m members}, g.Derives members w →
      g.Derives [.group m members] w := by
    intro m members derived
    exact Grammar.Derives.group_iff.mpr ⟨[w], .of_one m, by simpa using derived,
      by simp⟩
  cases flat with
  | reference lt _ => exact known lt
  | inlined _ _ member _ =>
      cases member with
      | reference lt _ => exact once (known lt)
  | single _ members own _ =>
      obtain rfl := Option.some.inj ((plain.fresh own).2.symm.trans rule)
      exact once (inside members chosen)
  | @repeated m members _ _ body _ _ repeats flat isBody own _ =>
      obtain rfl := Option.some.inj ((plain.fresh own).2.symm.trans rule)
      obtain ⟨ts, us, flatBody, variant, back⟩ :=
        isBody.exists_flattened (g := g) flat
      -- the reference of the rule to itself stands for further occurrences, at
      -- least one
      have again : Flattened bound recursion made [.group .oneOrMore members]
          [(.reference id, false)] :=
        .repeated rfl flat isBody own .nil
      have self : [.reference id] ∈ omissions
          [((.reference id : Token SymbolId), false)] := by
        simp [omissions]
      simp only [List.mem_cons, List.not_mem_nil, or_false] at chosen
      rcases chosen with rfl | rfl
      · cases recursion with
        | right =>
            have both := inside (flatBody.append again)
              (mem_omissions_append.mpr ⟨_, variant, _, self, rfl⟩)
            obtain ⟨w₁, w₂, rfl, h₁, h₂⟩ := Grammar.Derives.append_iff.mp both
            obtain ⟨words, _, derived, rfl⟩ := Grammar.Derives.group_iff.mp h₂
            refine Grammar.Derives.group_iff.mpr
              ⟨w₁ :: words, .of_isRepeat repeats (by simp), ?_, rfl⟩
            simpa using ⟨back _ h₁, derived⟩
        | left =>
            have both := inside (again.append flatBody)
              (mem_omissions_append.mpr ⟨_, self, _, variant, rfl⟩)
            obtain ⟨w₁, w₂, rfl, h₁, h₂⟩ := Grammar.Derives.append_iff.mp both
            obtain ⟨words, _, derived, rfl⟩ := Grammar.Derives.group_iff.mp h₁
            refine Grammar.Derives.group_iff.mpr
              ⟨words ++ [w₂], .of_isRepeat repeats (by simp), ?_, by simp⟩
            intro v mem
            rcases List.mem_append.mp mem with mem | mem
            · exact derived v mem
            · exact List.mem_singleton.mp mem ▸ back _ h₂
      · exact once (back _ (inside flatBody variant))

/-- What a variant of plain tokens derives in the plain grammar, the tokens
derive in the grammar. -/
theorem derives_of_mem_omissions (plain : h.PlainOf bound recursion made g)
    (derived : h.Derives v w) (flat : Flattened bound recursion made ts us)
    (variant : v ∈ omissions us) : g.Derives ts w := by
  induction derived generalizing ts us with
  | nil => exact derives_nil_of_flattened flat variant
  | literal _ ih =>
      obtain ⟨t, b, ts', us', first, rest, variant, both⟩ :=
        exists_kept (g := g) flat variant
      exact both [_] _ (derives_of_literal first) (ih rest variant)
  | reference rule chosen _ _ inside ih =>
      obtain ⟨t, b, ts', us', first, rest, variant, both⟩ :=
        exists_kept (g := g) flat variant
      exact both _ _ (derives_of_reference plain first rule chosen inside)
        (ih rest variant)
  | group _ _ _ _ _ _ =>
      -- plain tokens are no groups
      obtain ⟨t, b, ts', us', first, _, _, _⟩ :=
        exists_kept (g := g) flat variant
      cases first with
      | inlined _ leaf _ _ => cases leaf

end Language

/-! ## The conversion -/

theorem find?_eq_of_forall₂ {α β : Type}
    {R : α → β → Prop} {t : Table SymbolId α} {s : Table SymbolId β}
    (h : List.Forall₂ (fun x y => y.1 = x.1 ∧ R x.2 y.2) t s) (id : SymbolId) :
    (t.find? id = none ∧ s.find? id = none) ∨ ∃ a b,
      t.find? id = some a ∧ s.find? id = some b ∧ R a b := by
  induction h with
  | nil => exact .inl ⟨rfl, rfl⟩
  | @cons x y t s here _ ih =>
      obtain ⟨key, a⟩ := x
      obtain ⟨_, b⟩ := y
      obtain ⟨rfl, related⟩ := here
      simp only [Table.find?]
      split
      · exact .inr ⟨a, b, rfl, rfl, related⟩
      · exact ih

/-- Making a well-scoped grammar plain gives it the rules of `PlainOf`. -/
theorem Grammar.plainOf_of_plain {g h : Grammar} {recursion : Recursion}
    (known : g.WellScoped) (eq : g.plain recursion = .ok h) :
    ∃ made, h.PlainOf g.symbols.length recursion made g := by
  unfold plain flatten at eq
  split at eq
  · next rules draft flat =>
      obtain rfl := Except.ok.inj eq
      obtain ⟨⟨_, made, eq, nodup, bound⟩, all⟩ :=
        flattenRules_eq_ok (fun rule mem => (known rule mem).2) flat
      simp only [List.nil_append] at eq
      subst eq
      refine ⟨draft.created, fun mem => ?_, fun id lt => ?_⟩
      · exact ⟨(bound _ (List.mem_map_of_mem mem)).1,
          Table.find?_insertAll_of_mem rules nodup mem⟩
      · have old : (rules.insertAll draft.created).find? id = rules.find? id :=
          Table.find?_insertAll_of_not_mem rules fun mem =>
            Nat.not_lt_of_le (bound id mem).1 lt
        simp only [rule?, old]
        exact find?_eq_of_forall₂ all id
  · cases eq

/-- **Making a grammar plain keeps its language.** Every symbol of the grammar
derives the same literals. -/
theorem Grammar.plain_derives_iff {g h : Grammar} {recursion : Recursion}
    (known : g.WellScoped) (eq : g.plain recursion = .ok h) {id : SymbolId}
    (mem : id < g.symbols.length) (w : List String) :
    h.Derives [.reference id] w ↔ g.Derives [.reference id] w := by
  obtain ⟨made, plain⟩ := plainOf_of_plain known eq
  have flat : Flattened g.symbols.length recursion made [.reference id]
      [(.reference id, false)] :=
    .reference mem .nil
  have self : omissions [((.reference id : Token SymbolId), false)]
      = [[.reference id]] := by
    simp [omissions]
  constructor
  · intro derived
    exact derives_of_mem_omissions plain derived flat (by simp [self])
  · intro derived
    obtain ⟨v, variant, derived⟩ :=
      exists_omissions_of_derives plain derived flat
    rw [self, List.mem_singleton] at variant
    exact variant ▸ derived

/-- `<r> ::= "a" {"b" {"c"}?}* | {<s>}? "d" <r> ;` with no rule for `<s>`. -/
def nestedGroups : Grammar where
  symbols := [⟨"r", false⟩, ⟨"s", false⟩]
  rules := [(0, [[.literal "a", .group .zeroOrMore
    [.literal "b", .group .optional [.literal "c"]]],
    [.group .optional [.reference 1], .literal "d", .reference 0]])]
  parameters := []
  start := none

/-- The rule of `<r>` gets four alternatives, the repetition a rule of its own
and one for its body. -/
theorem nestedGroups_plain_derives_iff :
    nestedGroups.WellScoped ∧ ∃ h, nestedGroups.plain .left = .ok h ∧
      h.rules.map (fun rule => (rule.1, rule.2.length))
      = [(0, 4), (2, 2), (3, 2)] ∧ ∀ w, h.Derives [.reference 0] w ↔
      nestedGroups.Derives [.reference 0] w := by
  have known : nestedGroups.WellScoped := by decide
  exact ⟨known, _, rfl, rfl, fun w => Grammar.plain_derives_iff known rfl
    (by decide) w⟩

end Lexigram
