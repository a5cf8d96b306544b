import Lexigram.Proofs.Grammar.Flattening
import Lexigram.Proofs.Table

/-!
When a grammar can be made plain, and that it is plain then. Groups are replaced
wherever they stand, so the only obstacles are rules without alternatives and
groups without members, at any depth; what comes out has no group in any rule,
old or made up (`Grammar.makePlain_iff`). Each action on a draft says under
which condition it succeeds (`Drafting.SucceedsIff`), and the conditions are put
together along the recursion.
-/

namespace Lexigram

/-! ## Groups at any depth -/

namespace Token

variable {ι : Type}

/-- Whether the token is a group without members. -/
def isEmptyGroup : Token ι → Bool
  | .group _ [] => true
  | _ => false

/-- Whether every group in a sequence, at any depth, has members. -/
def Filled (ts : List (Token ι)) : Prop :=
  ∀ t ∈ postorderAll ts, t.isEmptyGroup = false

/-- Whether there is no group in a sequence, at any depth. -/
def Groupless (ts : List (Token ι)) : Prop :=
  ∀ t ∈ postorderAll ts, t.isGroup = false

theorem filled_nil : Filled ([] : List (Token ι)) := nofun

theorem filled_cons {t : Token ι} {ts : List (Token ι)} :
    Filled (t :: ts) ↔ Filled [t] ∧ Filled ts := by
  simp only [Filled, postorderAll_eq_flatMap, List.flatMap_cons,
    List.flatMap_nil, List.append_nil, List.forall_mem_append]

theorem filled_group {m : Multiplicity} {members : List (Token ι)} :
    Filled [.group m members] ↔ members ≠ [] ∧ Filled members := by
  have own : (group m members).isEmptyGroup = false ↔ members ≠ [] := by
    cases members <;> simp [isEmptyGroup]
  simp only [Filled, postorderAll, postorder, List.append_nil,
    List.forall_mem_append, List.forall_mem_singleton, own]
  exact and_comm

theorem filled_of_isGroup_eq_false {t : Token ι} (leaf : t.isGroup = false) :
    Filled [t] := by
  cases t with
  | literal p => simp [Filled, postorder, isEmptyGroup]
  | reference target => simp [Filled, postorder, isEmptyGroup]
  | group m members => cases leaf

/-- Without a group on the outside there is none inside. -/
theorem groupless_iff {ts : List (Token ι)} :
    Groupless ts ↔ ∀ t ∈ ts, t.isGroup = false := by
  rw [Groupless, postorderAll_eq_flatMap]
  constructor
  · intro h t mem
    refine h t (List.mem_flatMap.mpr ⟨t, mem, ?_⟩)
    cases t <;> simp [postorder]
  · intro h t mem
    obtain ⟨u, outer, inside⟩ := List.mem_flatMap.mp mem
    have leaf := h u outer
    cases u with
    | literal p => exact List.mem_singleton.mp inside ▸ rfl
    | reference target => exact List.mem_singleton.mp inside ▸ rfl
    | group m members => cases leaf

end Token

/-- Whether the alternatives of a rule can be made plain: there are some, and no
group is without members. -/
def IsFilledRule (alternatives : List (Alternative SymbolId)) : Prop :=
  alternatives ≠ [] ∧ ∀ a ∈ alternatives, Token.Filled a

/-- Whether the alternatives of a rule are plain: there are some, and no group
is left. -/
def IsPlainRule (alternatives : List (Alternative SymbolId)) : Prop :=
  alternatives ≠ [] ∧ ∀ a ∈ alternatives, Token.Groupless a

/-! ## Actions that succeed under a condition -/

/-- Whether the rules made so far are plain. -/
def Draft.IsPlain (d : Draft) : Prop :=
  ∀ rule ∈ d.created, IsPlainRule rule.2

namespace Drafting

variable {α β : Type} {P : α → Prop} {Q : β → Prop} {p q : Prop}
  {x : Drafting α}

/-- On a draft of plain rules `x` succeeds exactly if `p` holds. It then leaves
such a draft, and its result is in `P`. -/
def SucceedsIff (x : Drafting α) (p : Prop) (P : α → Prop) : Prop :=
  ∀ d : Draft, d.IsPlain →
    p ∧ (∃ a e, x d = .ok a e ∧ e.IsPlain ∧ P a) ∨ ¬p ∧ ∃ fault e,
    x d = .error fault e

namespace SucceedsIff

theorem congr (h : SucceedsIff x p P) (same : p ↔ q) : SucceedsIff x q P :=
  propext same ▸ h

theorem pure {a : α} (here : P a) :
    SucceedsIff (pure a) True P := fun d plain =>
  .inl ⟨trivial, a, d, rfl, plain, here⟩

theorem malformed (owner : SymbolId) (how : Malformation) :
    SucceedsIff (Drafting.malformed owner how) False P := fun d _ =>
  .inr ⟨id, _, d, rfl⟩

theorem bind {f : α → Drafting β} (first : SucceedsIff x p P)
    (second : ∀ a, P a → SucceedsIff (f a) q Q) :
    SucceedsIff (x >>= f) (p ∧ q) Q := by
  intro d plain
  change (p ∧ q) ∧ (∃ b e, EStateM.bind x f d = .ok b e ∧ _)
    ∨ ¬(p ∧ q) ∧ ∃ fault e, EStateM.bind x f d = .error fault e
  unfold EStateM.bind
  rcases first d plain with ⟨holds, a, e, ran, plain', here⟩
    | ⟨fails, fault, e, ran⟩
  · rw [ran]
    rcases second a here e plain' with ⟨holds', b, e', ran', rest⟩
      | ⟨fails', fault, e', ran'⟩
    · exact .inl ⟨⟨holds, holds'⟩, b, e', ran', rest⟩
    · exact .inr ⟨fun both => fails' both.2, fault, e', ran'⟩
  · rw [ran]
    exact .inr ⟨fun both => fails both.1, fault, e, rfl⟩

/-- An action that cannot fail, in front of another. -/
theorem bind_of_true {f : α → Drafting β} (first : SucceedsIff x True P)
    (second : ∀ a, P a → SucceedsIff (f a) q Q) : SucceedsIff (x >>= f) q Q :=
  (first.bind second).congr ⟨And.right, .intro trivial⟩

/-- An action that cannot fail, behind another. -/
theorem bind_true {f : α → Drafting β} (first : SucceedsIff x p P)
    (second : ∀ a, P a → SucceedsIff (f a) True Q) :
    SucceedsIff (x >>= f) p Q :=
  (first.bind second).congr ⟨And.left, fun h => ⟨h, trivial⟩⟩

theorem newSymbol :
    SucceedsIff Drafting.newSymbol True fun _ => True := fun _ plain =>
  .inl ⟨trivial, _, _, rfl, plain, trivial⟩

theorem addRule (id : SymbolId) {alternatives : List (Alternative SymbolId)}
    (here : IsPlainRule alternatives) :
    SucceedsIff (Drafting.addRule id alternatives) True fun _ =>
      True := fun _ plain =>
  .inl ⟨trivial, _, _, rfl, List.forall_mem_append.mpr
    ⟨plain, List.forall_mem_singleton.mpr here⟩, trivial⟩

theorem mapM {f : α → Drafting β} {cond : α → Prop} {as : List α}
    (h : ∀ a, SucceedsIff (f a) (cond a) Q) :
    SucceedsIff (as.mapM f) (∀ a ∈ as, cond a) fun bs =>
      bs.length = as.length ∧ ∀ b ∈ bs, Q b := by
  induction as with
  | nil => exact (pure ⟨rfl, List.forall_mem_nil _⟩).congr (by simp)
  | cons a as ih =>
    rw [List.mapM_cons, List.forall_mem_cons]
    refine (h a).bind fun b here => ih.bind_true fun bs rest => pure ?_
    exact ⟨congrArg (· + 1) rest.1, List.forall_mem_cons.mpr ⟨here, rest.2⟩⟩

end SucceedsIff

end Drafting

/-! ## Replacing groups -/

section Flatten

open Drafting

variable {recursion : Recursion} {m : Multiplicity}

/-- All variants of tokens that are no groups have no group. -/
theorem isPlainRule_omissions {marked : List (Token SymbolId × Bool)}
    (leaves : ∀ u ∈ marked, u.1.isGroup = false) :
    IsPlainRule (omissions marked) := by
  refine ⟨by rw [omissions_eq_cons]; exact List.cons_ne_nil _ _,
    fun a variant => Token.groupless_iff.mpr ?_⟩
  induction marked generalizing a with
  | nil =>
    rw [List.mem_singleton.mp variant]
    exact List.forall_mem_nil _
  | cons u marked ih =>
    obtain ⟨t, nullable⟩ := u
    obtain ⟨leaf, leaves⟩ := List.forall_mem_cons.mp leaves
    rcases mem_omissions_cons.mp variant with ⟨rest, kept, rfl⟩ | ⟨-, left⟩
    · exact List.forall_mem_cons.mpr ⟨leaf, ih leaves rest kept⟩
    · exact ih leaves a left

theorem groupless_extend {id : SymbolId} {body : Alternative SymbolId}
    (h : Token.Groupless body) :
    Token.Groupless (recursion.extend id body) := by
  rw [Token.groupless_iff] at h ⊢
  cases recursion with
  | left => exact List.forall_mem_cons.mpr ⟨rfl, h⟩
  | right =>
    exact List.forall_mem_append.mpr ⟨h, List.forall_mem_singleton.mpr rfl⟩

theorem succeeds_repeatedBody {alternatives : List (Alternative SymbolId)}
    (plain : IsPlainRule alternatives) :
    SucceedsIff (repeatedBody alternatives) True Token.Groupless := by
  unfold repeatedBody
  split
  · exact .pure (plain.2 _ List.mem_cons_self)
  · refine .bind_of_true .newSymbol fun id _ =>
      .bind_of_true (.addRule id plain) fun _ _ => .pure ?_
    exact Token.groupless_iff.mpr (List.forall_mem_singleton.mpr rfl)

theorem succeeds_completeGroup (id : SymbolId)
    {alternatives : List (Alternative SymbolId)}
    (plain : IsPlainRule alternatives) :
    SucceedsIff (completeGroup recursion m id alternatives) True fun _ =>
      True := by
  unfold completeGroup
  split
  · refine .bind_of_true (succeeds_repeatedBody plain) fun body here =>
      .addRule id ?_
    exact ⟨List.cons_ne_nil _ _, List.forall_mem_cons.mpr
      ⟨groupless_extend here, List.forall_mem_singleton.mpr here⟩⟩
  · exact .addRule id plain

mutual

/-- A token can be replaced if no group in it is without members; then it is
replaced by a leaf. -/
theorem succeeds_flattenToken (owner : SymbolId) : (t : Token SymbolId) →
    SucceedsIff (flattenToken recursion owner t) (Token.Filled [t]) fun u =>
      u.isGroup = false
  | .literal p => by
    have leaf : Token.isGroup (.literal p : Token SymbolId) = false := rfl
    rw [flattenToken]
    exact .congr (.pure leaf) (iff_of_true trivial
      (Token.filled_of_isGroup_eq_false leaf))
  | .reference target => by
    have leaf : Token.isGroup (.reference target : Token SymbolId) = false :=
      rfl
    rw [flattenToken]
    exact .congr (.pure leaf) (iff_of_true trivial
      (Token.filled_of_isGroup_eq_false leaf))
  | .group m members => by
    rw [flattenToken, Token.filled_group]
    split
    · next empty =>
      have none : members = [] := List.isEmpty_iff.mp empty
      exact (SucceedsIff.malformed owner .emptyGroup).congr
        (iff_of_false id fun both => both.1 none)
    · next nonempty =>
      have some : members ≠ [] :=
        fun none => nonempty (List.isEmpty_iff.mpr none)
      refine SucceedsIff.congr ?_ (and_iff_right some).symm
      split
      · next leaf inlined =>
        obtain ⟨rfl, -, isLeaf⟩ := inlined?_eq_some inlined
        exact .congr (.pure isLeaf)
          (iff_of_true trivial (Token.filled_of_isGroup_eq_false isLeaf))
      · refine .bind_of_true .newSymbol fun id _ =>
          (succeeds_flattenAll id members).bind_true fun inner leaves => ?_
        exact .bind_of_true (succeeds_completeGroup id
          (isPlainRule_omissions leaves)) fun _ _ => .pure rfl

/-- A sequence can be replaced if each of its tokens can. -/
theorem succeeds_flattenAll (owner : SymbolId) : (ts : List (Token SymbolId)) →
    SucceedsIff (flattenAll recursion owner ts) (Token.Filled ts) fun us =>
      ∀ u ∈ us, u.1.isGroup = false
  | [] => by
    rw [flattenAll]
    exact (SucceedsIff.pure (List.forall_mem_nil _)).congr
      (iff_of_true trivial Token.filled_nil)
  | t :: ts => by
    rw [flattenAll, Token.filled_cons]
    refine (succeeds_flattenToken owner t).bind fun u leaf => ?_
    exact (succeeds_flattenAll owner ts).bind_true fun us leaves =>
      .pure (List.forall_mem_cons.mpr ⟨leaf, leaves⟩)

end

/-- The alternatives of a rule can be made plain if there are some and no group
is without members. -/
theorem succeeds_flattenRule (owner : SymbolId)
    (alternatives : List (Alternative SymbolId)) :
    SucceedsIff (flattenRule recursion owner alternatives)
      (IsFilledRule alternatives) IsPlainRule := by
  unfold flattenRule IsFilledRule
  split
  · next empty =>
    have none : alternatives = [] := List.isEmpty_iff.mp empty
    exact (SucceedsIff.malformed owner .noAlternatives).congr
      (iff_of_false id fun both => both.1 none)
  · next nonempty =>
    have some : alternatives ≠ [] :=
      fun none => nonempty (List.isEmpty_iff.mpr none)
    refine SucceedsIff.congr ?_ (and_iff_right some).symm
    refine (SucceedsIff.mapM fun a => succeeds_flattenAll owner a).bind_true
      fun marked all => ?_
    change SucceedsIff (Pure.pure (withVariants marked)) True IsPlainRule
    refine .pure ⟨?_, fun a mem => ?_⟩
    · obtain ⟨us, marked, rfl⟩ :=
        List.exists_cons_of_length_pos (all.1 ▸ List.length_pos_iff.mpr some)
      exact List.cons_ne_nil _ _
    · obtain ⟨us, mem, variant⟩ := mem_withVariants.mp mem
      exact (isPlainRule_omissions (all.2 us mem)).2 a variant

theorem succeeds_flattenRules (rules : Rules) :
    SucceedsIff (flattenRules recursion rules) (∀ rule ∈ rules,
      IsFilledRule rule.2) fun flat =>
        flat.length = rules.length ∧ ∀ rule ∈ flat, IsPlainRule rule.2 :=
  .mapM fun rule =>
    (succeeds_flattenRule rule.1 rule.2).bind_true fun _ plain => .pure plain

end Flatten

/-! ## Grammars -/

namespace Grammar

/-- Whether every rule has an alternative, and every group at any depth a
member. -/
def IsFilled (g : Grammar) : Prop :=
  ∀ rule ∈ g.rules, IsFilledRule rule.2

/-- Whether every rule has an alternative, and none a group at any depth. -/
def IsPlain (g : Grammar) : Prop :=
  ∀ rule ∈ g.rules, IsPlainRule rule.2

theorem isPlain_of_plain {g h : Grammar} {recursion : Recursion}
    (eq : g.plain recursion = .ok h) : h.IsPlain := by
  have start : (Draft.mk g.symbols []).IsPlain := List.forall_mem_nil _
  have all : Drafting.SucceedsIff (flattenRules recursion g.rules) _ _ :=
    succeeds_flattenRules g.rules
  unfold Grammar.plain flatten at eq
  rcases all _ start with ⟨-, flat, draft, ran, made, plain⟩
    | ⟨-, fault, draft, ran⟩
  · rw [ran] at eq
    cases eq
    intro rule mem
    rcases Table.mem_insertAll mem with old | new
    · exact plain.2 rule old
    · exact made rule new
  · rw [ran] at eq
    cases eq

/-- **A grammar can be made plain exactly if every rule has an alternative and
no group is without members.** Then no group is left in any rule, made-up ones
included, and every rule has an alternative; otherwise the grammar stays as it
is. -/
theorem makePlain_iff (recursion : Recursion) (g : Grammar) :
    match makePlain recursion g with
    | .ok _ h => g.IsFilled ∧ h.IsPlain
    | .error _ h => ¬ g.IsFilled ∧ h = g := by
  have start : (Draft.mk g.symbols []).IsPlain := List.forall_mem_nil _
  have all : Drafting.SucceedsIff (flattenRules recursion g.rules) _ _ :=
    succeeds_flattenRules g.rules
  rcases all _ start with ⟨filled, flat, draft, ran, made, plain⟩
    | ⟨fails, fault, draft, ran⟩
  · have result : g.plain recursion = .ok { g with
        symbols := draft.symbols
        rules := flat.insertAll draft.created } := by
      simp only [Grammar.plain, flatten, ran]
    simp only [makePlain, result]
    refine ⟨filled, fun rule mem => ?_⟩
    rcases Table.mem_insertAll mem with old | new
    · exact plain.2 rule old
    · exact made rule new
  · have result : g.plain recursion = .error fault := by
      simp only [Grammar.plain, flatten, ran]
    simp only [makePlain, result]
    exact ⟨fails, trivial⟩

end Grammar

end Lexigram
