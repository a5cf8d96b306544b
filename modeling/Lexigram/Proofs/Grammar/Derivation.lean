import Lexigram.Grammar.Basic

/-!
# Derivation

What a grammar derives. Tokens in sequence derive sequences of literals: a
literal derives itself, a reference what some alternative of its rule derives, a
group what its members derive, as many times as its multiplicity allows. A
reference to a symbol without a rule derives nothing.
-/

namespace Lexigram

/-- How many occurrences of its members a group may stand for. -/
def Multiplicity.Allows : Multiplicity → Nat → Prop
  | .one, n => n = 1
  | .optional, n => n ≤ 1
  | .zeroOrMore, _ => True
  | .oneOrMore, n => 1 ≤ n

/-- `g.Derives ts w`: the tokens `ts` in sequence derive the literals `w`. -/
inductive Grammar.Derives (g : Grammar) :
    Alternative SymbolId → List String → Prop where
  | nil : Derives g [] []
  | literal {p ts w} (rest : Derives g ts w) :
      Derives g (.literal p :: ts) (p :: w)
  | reference {t as a v ts w} (rule : g.rule? t = some as) (chosen : a ∈ as)
      (inside : Derives g a v) (rest : Derives g ts w) :
      Derives g (.reference t :: ts) (v ++ w)
  | group {m members ts w} (words : List (List String))
      (allowed : m.Allows words.length)
      (inside : ∀ v ∈ words, Derives g members v) (rest : Derives g ts w) :
      Derives g (.group m members :: ts) (words.flatten ++ w)

/-- Every rule and every reference of the grammar belongs to a symbol of its
table. -/
def Grammar.WellScoped (g : Grammar) : Prop :=
  ∀ rule ∈ g.rules, rule.1 < g.symbols.length ∧
    ∀ a ∈ rule.2, ∀ target ∈ Token.targets a, target < g.symbols.length

instance (g : Grammar) : Decidable g.WellScoped :=
  inferInstanceAs (Decidable (∀ rule ∈ g.rules, rule.1 < g.symbols.length ∧
    ∀ a ∈ rule.2, ∀ target ∈ Token.targets a, target < g.symbols.length))

/-! ## Multiplicities -/

namespace Multiplicity

theorem Allows.of_isNullable {m : Multiplicity} (h : m.isNullable = true) :
    m.Allows 0 := by
  cases m with
  | one => cases h
  | optional => exact Nat.zero_le 1
  | zeroOrMore => trivial
  | oneOrMore => cases h

theorem Allows.isNullable {m : Multiplicity} (h : m.Allows 0) :
    m.isNullable = true := by
  cases m with
  | one => cases h
  | optional => rfl
  | zeroOrMore => rfl
  | oneOrMore => cases h

theorem Allows.of_one (m : Multiplicity) : m.Allows 1 := by
  cases m <;> simp [Allows]

theorem Allows.le_one {m : Multiplicity} {n : Nat} (single : m.isRepeat = false)
    (h : m.Allows n) :
    n ≤ 1 := by
  cases m with
  | one => exact Nat.le_of_eq h
  | optional => exact h
  | zeroOrMore => cases single
  | oneOrMore => cases single

theorem Allows.of_isRepeat {m : Multiplicity} (repeats : m.isRepeat = true)
    {n : Nat} (pos : 1 ≤ n) :
    m.Allows n := by
  cases m with
  | one => cases repeats
  | optional => cases repeats
  | zeroOrMore => trivial
  | oneOrMore => exact pos

end Multiplicity

/-! ## Sequences -/

namespace Grammar.Derives

variable {g : Grammar} {ts us members : Alternative SymbolId}
  {v w : List String}

theorem nil_iff : g.Derives [] w ↔ w = [] := by
  constructor
  · intro h; cases h; rfl
  · rintro rfl; exact .nil

theorem append (first : g.Derives ts v) (second : g.Derives us w) :
    g.Derives (ts ++ us) (v ++ w) := by
  induction first with
  | nil => exact second
  | literal _ ih => exact .literal ih
  | reference rule chosen inside _ _ ih =>
      rw [List.append_assoc]
      exact .reference rule chosen inside ih
  | group words allowed inside _ _ ih =>
      rw [List.append_assoc]
      exact .group words allowed inside ih

theorem append_iff : g.Derives (ts ++ us) w ↔
    ∃ v₁ v₂, w = v₁ ++ v₂ ∧ g.Derives ts v₁ ∧ g.Derives us v₂ := by
  constructor
  · intro h
    induction ts generalizing w with
    | nil => exact ⟨[], w, rfl, .nil, h⟩
    | cons t ts ih =>
        cases h with
        | literal rest =>
            obtain ⟨v₁, v₂, rfl, h₁, h₂⟩ := ih rest
            exact ⟨_ :: v₁, v₂, rfl, .literal h₁, h₂⟩
        | reference rule chosen inside rest =>
            obtain ⟨v₁, v₂, rfl, h₁, h₂⟩ := ih rest
            exact ⟨_ ++ v₁, v₂, by rw [List.append_assoc],
              .reference rule chosen inside h₁, h₂⟩
        | group words allowed inside rest =>
            obtain ⟨v₁, v₂, rfl, h₁, h₂⟩ := ih rest
            exact ⟨_ ++ v₁, v₂, by rw [List.append_assoc],
              .group words allowed inside h₁, h₂⟩
  · rintro ⟨v₁, v₂, rfl, h₁, h₂⟩
    exact h₁.append h₂

/-- A reference alone derives what one of its alternatives does. -/
theorem of_rule {t : SymbolId} {as : List (Alternative SymbolId)}
    (rule : g.rule? t = some as) (chosen : ts ∈ as) (inside : g.Derives ts v) :
    g.Derives [.reference t] v := by
  simpa using Derives.reference rule chosen inside .nil

/-- A group alone derives a word of its members for each of its occurrences, one
after the other. -/
theorem group_iff {m : Multiplicity} :
    g.Derives [.group m members] w ↔
      ∃ words : List (List String),
      m.Allows words.length ∧ (∀ v ∈ words, g.Derives members v) ∧
        w = words.flatten := by
  constructor
  · intro h
    cases h with
    | group words allowed inside rest =>
        rw [nil_iff.mp rest, List.append_nil]
        exact ⟨words, allowed, inside, rfl⟩
  · rintro ⟨words, allowed, inside, rfl⟩
    simpa using Derives.group words allowed inside .nil

end Grammar.Derives

end Lexigram
