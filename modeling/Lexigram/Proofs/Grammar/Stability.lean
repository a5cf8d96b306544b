import Lexigram.Proofs.Grammar.PlainSuccess
import Lexigram.Proofs.Grammar.Plans

/-!
What is plain stays as it is. Without a group there is nothing to replace: each
step of making a grammar plain gives back what it was given and leaves the draft
alone (`flattenAll_leaves`, `flattenRule_plain`, `flattenRules_plain`). As a
grammar made plain is plain, making it plain again changes nothing, in whichever
direction (`Grammar.makePlain_again`).
-/

namespace Lexigram

/-! ## Nothing to replace -/

section Leaves

variable {recursion : Recursion} {owner : SymbolId}

theorem flattenToken_leaf {t : Token SymbolId} (leaf : t.isGroup = false) :
    flattenToken recursion owner t = pure t := by
  cases t with
  | literal p => rw [flattenToken]
  | reference target => rw [flattenToken]
  | group m members => cases leaf

theorem flattenAll_leaves {ts : List (Token SymbolId)}
    (leaves : ∀ t ∈ ts, t.isGroup = false) :
    flattenAll recursion owner ts = pure (ts.map (·, false)) := by
  induction ts with
  | nil => rw [flattenAll, List.map_nil]
  | cons t ts ih =>
    obtain ⟨leaf, leaves⟩ := List.forall_mem_cons.mp leaves
    have nullable : t.isNullable = false := by
      cases t with
      | literal p => rfl
      | reference target => rfl
      | group m members => cases leaf
    rw [flattenAll, flattenToken_leaf leaf, pure_bind, ih leaves, pure_bind,
      nullable, List.map_cons]

/-- Nothing can be left out of tokens that are no groups. -/
theorem omissions_leaves (ts : List (Token SymbolId)) :
    omissions (ts.map (·, false)) = [ts] := by
  have clear : (ts.map (·, false)).any (·.2) = false := by simp
  rw [omissions_of_any_eq_false clear, List.map_map]
  simp [Function.comp_def]

theorem withVariants_leaves (as : List (Alternative SymbolId)) :
    withVariants (as.map fun ts => ts.map (·, false)) = as := by
  have front : (as.map fun ts => ts.map (·, false)).map (fun us => us.map (·.1))
      = as := by
    simp [Function.comp_def]
  have behind : (as.map fun ts => ts.map (·, false)).flatMap
      (fun us => (omissions us).tail) = [] := by
    simp [List.flatMap_map, omissions_leaves]
  rw [withVariants, front, behind, List.append_nil]

/-- An action that gives back each element gives back the list. -/
theorem mapM_eq_pure {α β : Type} {f : α → Drafting β} {g : α → β} {xs : List α}
    (h : ∀ x ∈ xs, f x = pure (g x)) : xs.mapM f = pure (xs.map g) := by
  induction xs with
  | nil => rw [List.mapM_nil, List.map_nil]
  | cons x xs ih =>
    obtain ⟨first, others⟩ := List.forall_mem_cons.mp h
    rw [List.mapM_cons, first, pure_bind, ih others, pure_bind, List.map_cons]

theorem flattenRule_plain {as : List (Alternative SymbolId)}
    (plain : IsPlainRule as) :
    flattenRule recursion owner as = pure as := by
  have each : as.mapM (flattenAll recursion owner)
      = pure (as.map fun ts => ts.map (·, false)) := by
    refine mapM_eq_pure fun a mem => flattenAll_leaves ?_
    exact Token.groupless_iff.mp (plain.2 a mem)
  have nonempty : as.isEmpty = false := by simpa using plain.1
  rw [flattenRule, nonempty, each, pure_bind]
  exact congrArg pure (withVariants_leaves as)

theorem flattenRules_plain {rules : Rules}
    (plain : ∀ rule ∈ rules, IsPlainRule rule.2) :
    flattenRules recursion rules = pure rules := by
  have kept : rules.mapM (fun rule => do
      let flat ← flattenRule recursion rule.1 rule.2
      return (rule.1, flat)) = (pure (rules.map id) : Drafting Rules) := by
    refine mapM_eq_pure fun rule mem => ?_
    rw [flattenRule_plain (plain rule mem), pure_bind, id]
  rw [List.map_id] at kept
  exact kept

end Leaves

/-! ## Grammars -/

namespace Grammar

/-- A grammar is plain if no rule has a group and every rule has an
alternative. -/
theorem isPlain_iff {g : Grammar} :
    g.IsPlain ↔ g.hasGroups = false ∧ ∀ rule ∈ g.rules, rule.2 ≠ [] := by
  have groups : g.hasGroups = false ↔ ∀ rule ∈ g.rules, ∀ a ∈ rule.2,
      Token.Groupless a := by
    simp [Grammar.hasGroups, Lexigram.hasGroups,
      Table.values, Token.groupless_iff]
  rw [groups]
  constructor
  · intro h
    exact ⟨fun rule mem => (h rule mem).2, fun rule mem => (h rule mem).1⟩
  · intro h rule mem
    exact ⟨h.2 rule mem, h.1 rule mem⟩

theorem makePlain_of_isPlain {g : Grammar} (plain : g.IsPlain)
    (recursion : Recursion) :
    makePlain recursion g = .ok () g := by
  have run : flattenRules recursion g.rules ⟨g.symbols, []⟩
      = .ok g.rules ⟨g.symbols, []⟩ := by
    rw [flattenRules_plain plain]
    rfl
  simp only [makePlain, Grammar.plain, flatten, run]
  rfl

/-- **A plain grammar is left as it is.** Made plain in either direction, a
grammar comes out with the symbols, rules, parameters and start it had, exactly
if no rule has a group and every rule has an alternative. So making a grammar
plain and then again, in the same direction or the other, comes to the same as
making it plain once. -/
theorem makePlain_again (first second : Recursion) :
    (∀ g : Grammar, makePlain first g = .ok () g
      ↔ g.hasGroups = false ∧ ∀ rule ∈ g.rules, rule.2 ≠ [])
      ∧ (do makePlain first; makePlain second) = makePlain first := by
  constructor
  · intro g
    rw [← isPlain_iff]
    constructor
    · intro h
      have made := makePlain_iff first g
      rw [h] at made
      exact made.2
    · intro h
      exact makePlain_of_isPlain h first
  · funext g
    have made := makePlain_iff first g
    show EStateM.bind (makePlain first) (fun _ => makePlain second) g
      = makePlain first g
    unfold EStateM.bind
    cases run : makePlain first g with
    | ok u h =>
      rw [run] at made
      exact makePlain_of_isPlain made.2 second
    | error fault h => rfl

end Grammar

end Lexigram
