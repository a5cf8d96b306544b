import Lexigram.Proofs.Lexis.Unfolding

/-!
Which references a fragment follows. The fragment of a rule follows every
reference of the rule, but for those of a repetition to itself: if one cannot be
replaced, then that is what is reported, and if the fragment is made, then all
are replaced. So a rule whose fragment is made leads to defined rules only
(`Grammar.isSome_of_fragment`), although rules that are being visited are not
gone into again; and what is reported is a reference that is there, to a symbol
without a rule (`Grammar.explains_of_fragmentFrom`).
-/

namespace Lexigram

open Relation (ReflTransGen TransGen)

/-! ## Following references -/

/-- Whether `x` follows the references to `ts`: if it succeeds they can all be
replaced, and if it fails, then as one of them does. -/
def Follows {α : Type} (expand : Expansion) (ts : List SymbolId)
    (x : Except AssemblyFault α) : Prop :=
  match x with
  | .ok _ => ∀ t ∈ ts, ∃ cs, expand t = .ok cs
  | .error e => ∃ t ∈ ts, expand t = .error e

namespace Follows

variable {α β γ : Type} {expand : Expansion} {ts us : List SymbolId}
  {x : Except AssemblyFault α} {y : Except AssemblyFault β}

theorem ok (a : α) : Follows expand [] (.ok a) :=
  List.forall_mem_nil _

theorem reference (t : SymbolId) : Follows expand [t] (expand t) := by
  cases h : expand t with
  | ok cs => exact List.forall_mem_singleton.mpr ⟨cs, h⟩
  | error e => exact ⟨t, .head _, h⟩

theorem map (follows : Follows expand ts x) (f : α → β) :
    Follows expand ts (x >>= fun a => pure (f a)) := by
  cases x with
  | ok a => exact follows
  | error e => exact follows

/-- One after the other. -/
theorem seq (first : Follows expand ts x) (second : Follows expand us y)
    (f : α → β → γ) :
    Follows expand (ts ++ us) (x >>= fun a => y >>= fun b => pure (f a b)) := by
  cases x with
  | error e =>
    obtain ⟨t, mem, fails⟩ := first
    exact ⟨t, List.mem_append_left _ mem, fails⟩
  | ok a =>
    cases y with
    | error e =>
      obtain ⟨t, mem, fails⟩ := second
      exact ⟨t, List.mem_append_right _ mem, fails⟩
    | ok b => exact List.forall_mem_append.mpr ⟨first, second⟩

theorem mapM {f : β → Except AssemblyFault α} {targets : β → List SymbolId}
    (bs : List β) (h : ∀ b ∈ bs, Follows expand (targets b) (f b)) :
    Follows expand (bs.flatMap targets) (bs.mapM f) := by
  induction bs with
  | nil => exact ok []
  | cons b bs ih =>
    rw [List.mapM_cons, List.flatMap_cons]
    exact (h b (.head _)).seq (ih fun b mem => h b (.tail _ mem)) (· :: ·)

end Follows

/-- The fragment of tokens follows their references. -/
theorem Token.follows_fragmentAll (expand : Expansion) (several : Bool)
    (ts : Alternative SymbolId) :
    Follows expand (targets ts) (fragmentAll expand several ts) := by
  induction ts using sequence_induction generalizing several with
  | nil => exact .ok []
  | literal p ts ih =>
    rw [fragmentAll, targets_literal]
    exact (ih several).map _
  | reference t ts ih =>
    rw [fragmentAll, targets_reference]
    exact (Follows.reference t).seq (ih several) _
  | group m members ts inside ih =>
    rw [fragmentAll, targets_group, fragment]
    exact ((inside _).map _).seq (ih several) _

/-- The fragments of alternatives follow the references of all of them. -/
theorem follows_choiceFragment (expand : Expansion)
    (as : List (Alternative SymbolId)) :
    Follows expand (ruleTargets as) (choiceFragment expand as) :=
  (Follows.mapM as fun a _ => Token.follows_fragmentAll expand _ a).map _

/-! ## Repetitions -/

theorem eq_extend_of_selfReference? {id : SymbolId}
    {a body : Alternative SymbolId} {side : Recursion}
    (h : selfReference? id a = some (side, body)) :
    a = side.extend id body := by
  rw [selfReference?] at h
  split at h
  · next behind =>
    split at h
    · cases h
    · cases h
      exact (List.dropLast_append_getLast? _ behind.1).symm
  · split at h
    · next ahead =>
      split at h
      · cases h
      · cases h
        exact (List.cons_head?_tail ahead.1).symm
    · cases h

theorem Recursion.mem_targets_extend (side : Recursion) {id t : SymbolId}
    {body : Alternative SymbolId} :
    t ∈ Token.targets (side.extend id body) ↔
      t = id ∨ t ∈ Token.targets body := by
  cases side with
  | left => simp [extend]
  | right => simp [extend, or_comm]

/-- Alternatives that all refer to the rule at an end are put together again
from what is found of them. -/
theorem eq_map_extend_of_mapM_selfReference? {id : SymbolId}
    {as : List (Alternative SymbolId)}
    {found : List (Recursion × Alternative SymbolId)}
    (h : as.mapM (selfReference? id) = some found) :
    as = found.map fun part => part.1.extend id part.2 := by
  induction as generalizing found with
  | nil =>
    cases h
    rfl
  | cons a as ih =>
    rw [List.mapM_cons] at h
    obtain ⟨part, first, h⟩ := Option.bind_eq_some_iff.mp h
    obtain ⟨others, rest, h⟩ := Option.bind_eq_some_iff.mp h
    cases h
    exact congrArg₂ List.cons (eq_extend_of_selfReference? first) (ih rest)

theorem mem_targets_map_extend {id t : SymbolId}
    {found : List (Recursion × Alternative SymbolId)} :
    t ∈ ruleTargets (found.map fun part => part.1.extend id part.2)
      ↔ t = id ∧ found ≠ [] ∨ t ∈ ruleTargets (found.map (·.2)) := by
  induction found with
  | nil => simp [ruleTargets]
  | cons part found ih =>
    simp only [ruleTargets, List.map_cons,
      List.flatMap_cons, List.mem_append] at ih ⊢
    rw [part.1.mem_targets_extend, ih]
    simp only [ne_eq, reduceCtorEq, not_false_iff, and_true]
    tauto

/-- What a repetition repeats, and its other alternatives, have no patterns but
those of the rule. -/
theorem patterns_of_repetitionParts? {id : SymbolId}
    {as repeated base : List (Alternative SymbolId)} {side : Recursion}
    (h : repetitionParts? id as = some (side, repeated, base)) :
    rulePatterns repeated ⊆ rulePatterns as ∧
      rulePatterns base ⊆ rulePatterns as := by
  rw [repetitionParts?] at h
  obtain ⟨found, taken, h⟩ := Option.bind_eq_some_iff.mp h
  have parts := eq_map_extend_of_mapM_selfReference? taken
  cases found with
  | nil => cases h
  | cons first others =>
    dsimp only at h
    split at h
    · cases h
      constructor
      · intro p mem
        obtain ⟨body, repeats, mem⟩ := List.mem_flatMap.mp mem
        obtain ⟨part, has, rfl⟩ := List.mem_map.mp repeats
        have mentions : part.1.extend id part.2 ∈ as.filter fun a =>
            Alternative.mentions a id := by
          rw [parts]
          exact List.mem_map.mpr ⟨part, has, rfl⟩
        have stands := (List.mem_filter.mp mentions).1
        exact List.mem_flatMap.mpr
          ⟨_, stands, part.1.patterns_subset_extend id part.2 mem⟩
      · intro p mem
        obtain ⟨a, chosen, mem⟩ := List.mem_flatMap.mp mem
        exact List.mem_flatMap.mpr ⟨a, (List.mem_filter.mp chosen).1, mem⟩
    · cases h

/-- What a repetition repeats, and its other alternatives, have the references
of the rule but those to itself. -/
theorem mem_targets_of_repetitionParts? {id : SymbolId}
    {as repeated base : List (Alternative SymbolId)} {side : Recursion}
    (h : repetitionParts? id as = some (side, repeated, base)) {t : SymbolId} :
    t ∈ ruleTargets as ↔
      t = id ∨ t ∈ ruleTargets repeated ++ ruleTargets base := by
  rw [repetitionParts?] at h
  obtain ⟨found, taken, h⟩ := Option.bind_eq_some_iff.mp h
  have parts := eq_map_extend_of_mapM_selfReference? taken
  have splits : t ∈ ruleTargets as ↔
      t ∈ ruleTargets (as.filter fun a => Alternative.mentions a id)
      ∨ t ∈ ruleTargets (as.filter fun a => !Alternative.mentions a id) := by
    simp only [ruleTargets, List.mem_flatMap, List.mem_filter]
    constructor
    · rintro ⟨a, chosen, mem⟩
      cases mentions : Alternative.mentions a id with
      | true => exact .inl ⟨a, ⟨chosen, mentions⟩, mem⟩
      | false => exact .inr ⟨a, ⟨chosen, by rw [mentions]; rfl⟩, mem⟩
    · rintro (⟨a, ⟨chosen, -⟩, mem⟩ | ⟨a, ⟨chosen, -⟩, mem⟩)
      · exact ⟨a, chosen, mem⟩
      · exact ⟨a, chosen, mem⟩
  cases found with
  | nil => cases h
  | cons first others =>
    dsimp only at h
    split at h
    · cases h
      rw [splits, parts, mem_targets_map_extend,
        and_iff_left (List.cons_ne_nil first others), List.mem_append, or_assoc]
    · cases h

/-- The fragment of a rule follows the references of the rule, but perhaps not
those to the rule itself. -/
theorem exists_follows_ruleFragment (expand : Expansion) (id : SymbolId)
    (as : List (Alternative SymbolId)) :
    ∃ ts, Follows expand ts (ruleFragment expand id as) ∧ ts ⊆ ruleTargets as
      ∧ ∀ t ∈ ruleTargets as, t = id ∨ t ∈ ts := by
  rw [ruleFragment]
  split
  · next p single =>
    rw [singleLiteral?_eq_some_iff.mp single]
    exact ⟨[], .ok _, List.nil_subset _, by simp [ruleTargets]⟩
  · split
    · next side repeated base parts =>
      refine ⟨ruleTargets repeated ++ ruleTargets base, ?_, fun t mem => ?_,
        fun t mem => ?_⟩
      · have first := follows_choiceFragment expand repeated
        have second := follows_choiceFragment expand base
        cases side with
        | right =>
          exact first.seq second fun repeated base =>
            (wrapped repeated ++ ['*']) ++ wrapped base
        | left =>
          exact first.seq second fun repeated base =>
            wrapped base ++ (wrapped repeated ++ ['*'])
      · exact (mem_targets_of_repetitionParts? parts).mpr (.inr mem)
      · exact (mem_targets_of_repetitionParts? parts).mp mem
    · exact ⟨ruleTargets as, (follows_choiceFragment expand as).map _,
        List.Subset.refl _, fun t mem => .inr mem⟩

/-! ## Fragments of grammars -/

namespace Grammar

variable {g : Grammar}

/-- Whether the rule of `r` refers to `t`, which has none. -/
def Dangles (g : Grammar) (r t : SymbolId) : Prop :=
  g.Refers r t ∧ g.rule? t = none

/-- Whether a fault of an assembly is there in the grammar: a symbol for a
special rule that has none, or a reference to a symbol without a rule. Why a
pattern is refused does not tell of the references. -/
def Explains (g : Grammar) : AssemblyFault → Prop
  | .missingSpecialRule id name =>
    id < g.symbols.length ∧ g.rule? id = none ∧ name = g.nameOf id
  | .undefinedRule r name t target =>
    g.Dangles r t ∧ name = g.nameOf r ∧ target = g.nameOf t
  | .refused _ => True

theorem fragmentFrom_of_none {visiting : List SymbolId} {id : SymbolId}
    (missing : g.rule? id = none) (fresh : visiting.contains id = false) :
    g.fragmentFrom visiting id = .error (.refused (.noRule (g.nameOf id))) := by
  rw [fragmentFrom, dif_pos fresh]
  split
  · rfl
  · next as defined => cases missing.symm.trans defined

theorem fragmentFrom_of_visited {visiting : List SymbolId} {id : SymbolId}
    (visited : visiting.contains id = true) :
    g.fragmentFrom visiting id = .ok [] := by
  rw [fragmentFrom, dif_neg (by
    simp only [visited, Bool.true_eq_false, not_false_iff])]

theorem isSome_rule?_of_mem_keys {id : SymbolId}
    (mem : id ∈ Table.keys g.rules) : (g.rule? id).isSome = true := by
  obtain ⟨as, found⟩ := Table.exists_find?_of_mem_keys mem
  rw [show g.rule? id = some as from found]
  rfl

/-- The fragment of a rule is not made if the rule is missing, or if a reference
is to a symbol without one. -/
theorem cases_of_fragmentFrom_eq_error {visiting : List SymbolId}
    {id : SymbolId} {e : AssemblyFault}
    (h : g.fragmentFrom visiting id = .error e) :
    (g.rule? id = none ∧ e = .refused (.noRule (g.nameOf id))) ∨ ∃ r t,
      g.Dangles r t ∧ e = .undefinedRule r (g.nameOf r) t (g.nameOf t) := by
  induction size : g.unvisited visiting using Nat.strong_induction_on
      generalizing visiting id with
  | _ n ih =>
    cases fresh : visiting.contains id with
    | true =>
      rw [fragmentFrom_of_visited fresh] at h
      cases h
    | false =>
      cases rule : g.rule? id with
      | none =>
        rw [fragmentFrom_of_none rule fresh] at h
        cases h
        exact .inl ⟨rfl, rfl⟩
      | some as =>
        rw [fragmentFrom_eq rule fresh] at h
        obtain ⟨ts, follows, within, -⟩ :=
          exists_follows_ruleFragment (g.expansion (id :: visiting) id) id as
        rw [h] at follows
        obtain ⟨t, mem, fails⟩ := follows
        cases target : g.rule? t with
        | some as' =>
          have defined : (g.rule? t).isSome = true := by rw [target]; rfl
          rw [expansion_of_isSome defined] at fails
          refine .inr ((ih _ (size ▸ unvisited_cons_lt rule fresh)
            fails rfl).resolve_left ?_)
          intro missing
          rw [missing.1] at defined
          cases defined
        | none =>
          rw [expansion_of_eq_none target] at fails
          cases fails
          exact .inr
            ⟨id, t, ⟨⟨as, Table.mem_of_find? rule, within mem⟩, target⟩, rfl⟩

/-- What the fragment of a rule reports is there. -/
theorem explains_of_fragmentFrom {visiting : List SymbolId} {id : SymbolId}
    {e : AssemblyFault} (h : g.fragmentFrom visiting id = .error e) :
    g.Explains e := by
  rcases cases_of_fragmentFrom_eq_error h with ⟨-, rfl⟩ | ⟨r, t, dangles, rfl⟩
  · trivial
  · exact ⟨dangles, rfl, rfl⟩

/-! ## Where references lead -/

/-- A path from `a` ends there or goes on from its last visit of `a`, from which
on it avoids `a`. -/
theorem eq_or_exists_avoiding {α : Type} {R : α → α → Prop} {a b : α}
    (h : ReflTransGen R a b) :
    b = a ∨ ∃ c,
      R a c ∧ c ≠ a ∧ ReflTransGen (fun x y => R x y ∧ y ≠ a) c b := by
  induction h with
  | refl => exact .inl rfl
  | @tail m b _ step ih =>
    by_cases same : b = a
    · exact .inl same
    · refine .inr ?_
      rcases ih with rfl | ⟨c, first, ne, path⟩
      · exact ⟨b, step, same, .refl⟩
      · exact ⟨c, first, ne, path.tail ⟨step, same⟩⟩

/-- If the fragment of a rule is made, all references are defined that it leads
to without a rule that is visited. -/
theorem isSome_of_fragmentFrom (ordered : g.rules.Ordered)
    {visiting : List SymbolId} {id u t : SymbolId} {cs : List Char}
    (h : g.fragmentFrom visiting id = .ok cs) (fresh : id ∉ visiting)
    (path : ReflTransGen (fun a b => g.Refers a b ∧ b ∉ visiting) id u)
    (last : g.Refers u t) :
    (g.rule? t).isSome = true := by
  induction size : g.unvisited visiting using Nat.strong_induction_on
      generalizing visiting id cs with
  | _ n ih =>
    have contains : visiting.contains id = false := by simpa using fresh
    cases rule : g.rule? id with
    | none =>
      rw [fragmentFrom_of_none rule contains] at h
      cases h
    | some as =>
      rw [fragmentFrom_eq rule contains] at h
      obtain ⟨ts, follows, -, all⟩ :=
        exists_follows_ruleFragment (g.expansion (id :: visiting) id) id as
      rw [h] at follows
      -- a reference to another rule has been followed
      have followed : ∀ b, g.Refers id b → b ≠ id →
          (g.rule? b).isSome = true ∧ ∃ cs,
          g.fragmentFrom (id :: visiting) b = .ok cs := by
        rintro b ⟨as', there, mem⟩ other
        cases rule.symm.trans ((Table.mem_iff_find? ordered).mp there)
        obtain ⟨cs, made⟩ := follows b ((all b mem).resolve_left other)
        cases target : g.rule? b with
        | some as =>
          exact ⟨rfl, cs, by
            rwa [expansion_of_isSome (by rw [target]; rfl)] at made⟩
        | none =>
          rw [expansion_of_eq_none target] at made
          cases made
      rcases eq_or_exists_avoiding path with rfl
        | ⟨b, ⟨mem, fresh'⟩, other, rest⟩
      · by_cases self : t = u
        · rw [self, rule]
          rfl
        · exact (followed t last self).1
      · obtain ⟨-, cs, made⟩ := followed b mem other
        refine ih _ (size ▸ unvisited_cons_lt rule contains) made ?_ ?_ rfl
        · exact List.not_mem_cons_of_ne_of_not_mem other fresh'
        · refine ReflTransGen.mono (fun x y step => ⟨step.1.1, ?_⟩) _ _ rest
          exact List.not_mem_cons_of_ne_of_not_mem step.2 step.1.2

/-- If the fragment of a rule is made, all references that the rule leads to are
defined. -/
theorem isSome_of_fragment (ordered : g.rules.Ordered)
    {id t : SymbolId} {cs : List Char} (h : g.fragment id = .ok cs)
    (path : TransGen g.Refers id t) : (g.rule? t).isSome = true := by
  obtain ⟨u, first, last⟩ := TransGen.tail'_iff.mp path
  have all : ReflTransGen (fun a b => g.Refers a b ∧ b ∉ []) id u :=
    ReflTransGen.mono (fun _ _ step => ⟨step, List.not_mem_nil⟩) _ _ first
  exact isSome_of_fragmentFrom ordered h List.not_mem_nil all last

theorem fragment_of_fragmentText {id : SymbolId} {text : String}
    (h : g.fragmentText id = .ok text) :
    g.fragment id = .ok text.toList := by
  rw [fragmentText] at h
  cases made : g.fragment id with
  | error e => rw [made] at h; cases h
  | ok cs =>
    rw [made] at h
    cases h
    rw [String.toList_ofList]

theorem fragment_of_fragmentText_eq_error {id : SymbolId} {e : AssemblyFault}
    (h : g.fragmentText id = .error e) :
    g.fragment id = .error e := by
  rw [fragmentText] at h
  cases made : g.fragment id with
  | ok cs => rw [made] at h; cases h
  | error e' =>
    rw [made] at h
    cases h
    rfl

theorem explains_of_fragmentText {id : SymbolId} {e : AssemblyFault}
    (h : g.fragmentText id = .error e) :
    g.Explains e :=
  explains_of_fragmentFrom (fragment_of_fragmentText_eq_error h)

end Grammar

end Lexigram
