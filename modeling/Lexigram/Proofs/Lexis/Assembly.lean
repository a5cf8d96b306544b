import Lexigram.Proofs.Pattern.Choices
import Lexigram.Lexis.Lexicon

/-!
How a lexicon is put together. Its master pattern is the choice of its
alternatives: the fragments of its token rules, the pattern of white space and,
with a fallback, that of errors (`LexiconParts.toList_source`). If the
alternatives are patterns by themselves the master pattern is read as the choice
of what they are read as (`LexiconParts.master_eq`), and its outer groups are
numbered behind those that are counted in the alternatives in front
(`LexiconParts.outerGroups_eq`).
-/

namespace Lexigram

open Pattern (Compiled Match Progress Expr IsPattern Enclosable choiceOf
  numberParts bind_ok_iff mapM_ok_iff)

namespace Lexicon

/-- What a lexicon chooses from, each with its pattern. -/
def alternatives (c : Lexicon) : List (Role × String) :=
  c.rules.map (fun r => (.token r.kind, r.fragment))
    ++ (.whitespace, c.whitespace)
      :: if c.hasFallback then [(.error, errorPattern)] else []

/-- The groups that stand for the alternatives, in the order in which they are
asked. -/
def outerGroups (c : Lexicon) : List (Nat × Role) :=
  c.tokenGroups.map (fun (group, kind) => (group, .token kind))
    ++ (c.whitespaceGroup, .whitespace) :: (c.errorGroup.map (·, .error)).toList

/-- What a match stands for is what its first outer group with some text stands
for. -/
theorem classify_eq (c : Lexicon) (m : Match) :
    c.classify m = (c.outerGroups.find? fun entry => m.fills entry.1).map
      (·.2) := by
  have tokens : (c.tokenGroups.map fun (group, kind) =>
      (group, Role.token kind)).find? (fun entry => m.fills entry.1)
      = (c.tokenGroups.find? fun (group, _) => m.fills group).map
      fun (group, kind) => (group, .token kind) :=
    List.find?_map
  rw [classify, outerGroups, List.find?_append, tokens]
  cases c.tokenGroups.find? fun (group, _) => m.fills group with
  | some entry => rfl
  | none =>
    by_cases white : m.fills c.whitespaceGroup
    · simp [white]
    · cases c.errorGroup with
      | none => simp [white]
      | some group => by_cases filled : m.fills group <;> simp [white, filled]

end Lexicon

/-! ## The parts of a lexicon -/

theorem compilePart_eq_ok_iff {pattern : String} {p : Compiled} :
    compilePart pattern = .ok p ↔ Compiled.ofText? pattern = .ok p := by
  unfold compilePart
  cases Compiled.ofText? pattern <;> simp

theorem Pattern.Compiled.ofText?_eq_ok_iff_exists {text : String}
    {p : Compiled} :
    ofText? text = .ok p ↔ ∃ e, Expr.ofText? text.toList = .ok e ∧
      .ofExpr e = p := by
  rw [ofText?]
  cases Expr.ofText? text.toList <;> simp [Except.map]

theorem Pattern.IsPattern.compiled {text : String} {q : Progress}
    (h : IsPattern text.toList q) :
    Compiled.ofText? text = .ok (.ofExpr q.branches.close) :=
  Compiled.ofText?_eq_ok_iff_exists.mpr ⟨_,
    Pattern.ofText?_eq_ok_iff.mpr ⟨q, h, rfl⟩, rfl⟩

theorem toList_anchored (pattern : String) :
    (anchored pattern).toList = '^' :: (wrapped pattern.toList ++ ['$']) := by
  simp [anchored, wrapped]

/-- A pattern that can be compiled by itself and between anchors can stand
between parentheses, and its groups are counted alike in both. -/
theorem Pattern.Compiled.enclosable_of_ofText? {pattern : String}
    {p whole : Compiled} (ok : ofText? pattern = .ok p)
    (between : ofText? (anchored pattern) = .ok whole) :
    ∃ q, Enclosable pattern.toList q ∧ .ofExpr q.branches.close = p ∧
      whole.groups = p.groups := by
  obtain ⟨e, read, rfl⟩ := ofText?_eq_ok_iff_exists.mp ok
  obtain ⟨q, pattern, rfl⟩ := Pattern.ofText?_eq_ok_iff.mp read
  obtain ⟨e', read', rfl⟩ := ofText?_eq_ok_iff_exists.mp between
  rw [toList_anchored] at read'
  have enclosable := pattern.enclosable read'
  rw [Pattern.ofText?_anchored enclosable] at read'
  cases read'
  exact ⟨q, enclosable, rfl, by simp [ofExpr, Expr.whole, Expr.recorded]⟩

/-- What making the rule of a token comes to. -/
theorem Grammar.of_tokenRule {g : Grammar} {kind : TokenKind} {r : LexicalRule}
    (ok : g.tokenRule kind = .ok r) :
    r.kind = kind ∧ g.fragmentText kind.id = .ok r.fragment ∧
      Compiled.ofText? (anchored r.fragment) = .ok r.whole ∧
      r.matchesWhole "" = false := by
  obtain ⟨fragment, made, ok⟩ := bind_ok_iff.mp ok
  obtain ⟨rule, compiled, checked⟩ := bind_ok_iff.mp ok
  obtain ⟨whole, between, same⟩ := bind_ok_iff.mp compiled
  cases same
  split at checked
  · cases checked
  · next empty =>
    cases checked
    exact ⟨rfl, made, compilePart_eq_ok_iff.mp between,
      Bool.not_eq_true _ ▸ empty⟩

/-- What finding the pattern of white space comes to. -/
theorem Grammar.of_whitespacePattern {g : Grammar} {reserved : Reserved}
    {pattern : String} (ok : g.whitespacePattern reserved = .ok pattern) :
    ∃ whole, Compiled.ofText? (anchored pattern) = .ok whole ∧
      whole.matchesIn [] = false := by
  have checked {text : String}
      (ok : (compilePart (anchored text) >>= fun whole =>
        if whole.matchesIn [] then
          .error (.refused (.matchesEmpty reserved.whitespace))
        else pure text) = .ok pattern) :
      ∃ whole, Compiled.ofText? (anchored pattern) = .ok whole ∧
          whole.matchesIn [] = false := by
    obtain ⟨whole, compiled, checked⟩ := bind_ok_iff.mp ok
    split at checked
    · cases checked
    · next empty =>
      cases checked
      exact ⟨whole, compilePart_eq_ok_iff.mp compiled,
        Bool.not_eq_true _ ▸ empty⟩
  rw [whitespacePattern] at ok
  split at ok
  all_goals
    obtain ⟨text, -, ok⟩ := bind_ok_iff.mp ok
    exact checked ok

/-- What making the rule of a symbol for configuration comes to. -/
theorem Grammar.of_configurationRule {g : Grammar} {kind : TokenKind}
    {r : LexicalRule} (ok : g.configurationRule kind = .ok r) :
    r.kind = kind ∧ g.specialFragment kind.id = .ok r.fragment ∧
      Compiled.ofText? (anchored r.fragment) = .ok r.whole := by
  obtain ⟨fragment, made, ok⟩ := bind_ok_iff.mp ok
  obtain ⟨whole, between, same⟩ := bind_ok_iff.mp ok
  cases same
  exact ⟨rfl, made, compilePart_eq_ok_iff.mp between⟩

/-- Rules that are made of kinds, one by one. -/
theorem LexicalRule.of_mapM
    {make : TokenKind → Except AssemblyFault LexicalRule}
    {kinds : List TokenKind} {rules : List LexicalRule}
    (own : ∀ kind r, make kind = .ok r → r.kind = kind)
    (ok : kinds.mapM make = .ok rules) :
    rules.map (·.kind) = kinds ∧ ∀ r ∈ rules, make r.kind = .ok r := by
  induction mapM_ok_iff.mp ok with
  | nil => exact ⟨rfl, List.forall_mem_nil _⟩
  | @cons kind r _ _ first others ih =>
    obtain ⟨same, all⟩ := ih (mapM_ok_iff.mpr others)
    have here := own kind r first
    exact ⟨by rw [List.map_cons, here, same],
      List.forall_mem_cons.mpr ⟨here ▸ first, all⟩⟩

theorem Grammar.of_tokenRules {g : Grammar} {kinds : List TokenKind}
    {rules : List LexicalRule} (ok : kinds.mapM g.tokenRule = .ok rules) :
    rules.map (·.kind) = kinds ∧ ∀ r ∈ rules, g.tokenRule r.kind = .ok r :=
  LexicalRule.of_mapM (fun _ _ made => (of_tokenRule made).1) ok

/-- The kinds of tokens stand in the order of the rules. -/
theorem Grammar.tokenKinds_ids_sublist (g : Grammar) (reserved : Reserved) :
    ((g.tokenKinds reserved).map (·.id)).Sublist g.rules.keys := by
  unfold tokenKinds
  induction g.rules.keys with
  | nil => exact .slnil
  | cons id ids ih =>
    rw [List.filterMap_cons]
    split
    · exact ih.cons id
    · next kind made =>
      have same : kind.id = id := by
        split at made
        · split at made
          · cases made
          · cases made; rfl
        · cases made
      rw [List.map_cons, same]
      exact ih.cons_cons id

/-- What making the parts of a lexicon comes to. -/
structure LexiconParts.MadeOf (p : LexiconParts) (g : Grammar)
    (options : LexiconOptions) : Prop where
  kinds : p.rules.map (·.kind) = g.tokenKinds options.reserved
  rules : ∀ r ∈ p.rules, g.tokenRule r.kind = .ok r
  nonempty : p.rules ≠ []
  whitespace : g.whitespacePattern options.reserved = .ok p.whitespace
  groups : ∃ alone, Compiled.ofText? p.whitespace = .ok alone ∧
    p.whitespaceGroups = alone.groups - 1
  fallback : p.fallback = options.fallback

theorem LexiconParts.madeOf_of_ofGrammar {g : Grammar}
    {options : LexiconOptions} {p : LexiconParts}
    (ok : ofGrammar g options = .ok p) : p.MadeOf g options := by
  obtain ⟨whitespace, white, ok⟩ := bind_ok_iff.mp ok
  obtain ⟨configuration, -, ok⟩ := bind_ok_iff.mp ok
  obtain ⟨rules, all, ok⟩ := bind_ok_iff.mp ok
  dsimp only at ok
  split at ok
  · cases ok
  · next some =>
    obtain ⟨alone, compiled, same⟩ := bind_ok_iff.mp ok
    cases same
    obtain ⟨kinds, all⟩ := Grammar.of_tokenRules all
    exact ⟨kinds, all, fun none => some (List.isEmpty_iff.mpr none), white,
      ⟨alone, compilePart_eq_ok_iff.mp compiled, rfl⟩, rfl⟩

theorem Lexicon.of_ofGrammar {g : Grammar} {options : LexiconOptions}
    {c : Lexicon} (made : ofGrammar g options = .ok c) :
    ∃ p : LexiconParts, p.MadeOf g options ∧ p.lexicon = .ok c := by
  obtain ⟨p, parts, whole⟩ := bind_ok_iff.mp made
  exact ⟨p, LexiconParts.madeOf_of_ofGrammar parts, whole⟩

/-! ## The choice -/

theorem choiceOf_append {css css' : List (List Char)} (nonempty : css' ≠ []) :
    choiceOf (css ++ css') = css.flatMap (fun cs => '(' :: (cs ++ [')', '|']))
      ++ choiceOf css' := by
  induction css with
  | nil => rfl
  | cons cs css ih =>
    have behind : css ++ css' ≠ [] := by simp [nonempty]
    rw [List.cons_append, Pattern.choiceOf_cons cs behind, ih]
    simp

section

variable {g : Grammar} {options : LexiconOptions} {p : LexiconParts}
  {c : Lexicon}

theorem LexiconParts.compile_of_lexicon (whole : p.lexicon = .ok c) :
    Compiled.ofText? p.source = .ok c.master ∧ c.rules = p.rules ∧
      c.whitespace = p.whitespace ∧
      c.tokenGroups = p.groups.1 ∧ c.whitespaceGroup = p.groups.2 ∧
      c.errorGroup = p.errorGroup := by
  obtain ⟨master, compiled, same⟩ := bind_ok_iff.mp whole
  cases same
  exact ⟨compilePart_eq_ok_iff.mp compiled, rfl, rfl, rfl, rfl, rfl⟩

theorem LexiconParts.hasFallback_eq (whole : p.lexicon = .ok c) :
    c.hasFallback = p.fallback := by
  rw [Lexicon.hasFallback, (compile_of_lexicon whole).2.2.2.2.2, errorGroup]
  split <;> simp_all

/-- The alternatives, each with how many groups are counted in it. -/
def LexiconParts.counted (p : LexiconParts) : List ((Role × String) × Nat) :=
  p.rules.map (fun r => ((.token r.kind, r.fragment), r.innerGroups))
    ++ ((.whitespace, p.whitespace), p.whitespaceGroups)
      :: if p.fallback then [((.error, errorPattern), 0)] else []

theorem LexiconParts.map_counted (whole : p.lexicon = .ok c) :
    p.counted.map (·.1) = c.alternatives := by
  obtain ⟨-, rules, whitespace, -⟩ := compile_of_lexicon whole
  rw [Lexicon.alternatives, hasFallback_eq whole, rules, whitespace, counted]
  cases p.fallback <;> simp

/-- The master pattern is the choice of the patterns of the alternatives. -/
theorem LexiconParts.toList_source (p : LexiconParts) :
    p.source.toList = choiceOf (p.counted.map (·.1.2.toList)) := by
  rw [counted, List.map_append, choiceOf_append (by simp), source]
  have front :
      (String.join (p.rules.map fun r => "(" ++ r.fragment ++ ")|")).toList
      = ((p.rules.map fun r => ((Role.token r.kind, r.fragment),
        r.innerGroups)).map (·.1.2.toList)).flatMap
          fun cs => '(' :: (cs ++ [')', '|']) := by
    simp [String.toList_join, List.flatMap_map]
  simp only [String.toList_append, front, List.append_assoc]
  cases p.fallback <;> simp [choiceOf]

/-! ## Reading the alternatives -/

theorem exists_ok_of_isSome {ε α : Type} {x : Except ε α}
    (some : x.toOption.isSome = true) : ∃ a, x = .ok a := by
  cases x with
  | error e => cases some
  | ok a => exact ⟨a, rfl⟩

theorem ok_of_toOption {ε α : Type} {x : Except ε α} {a : α}
    (same : x.toOption = some a) : x = .ok a := by
  cases x with
  | error e => cases same
  | ok b => exact congrArg Except.ok (Option.some.inj same)

theorem of_toOption_all {ε α : Type} {x : Except ε α} {P : α → Bool}
    (all : x.toOption.all P = true) {a : α} (ok : x = .ok a) : P a = true := by
  subst ok
  exact all

/-- What holds of a result, if there is one, can be checked by a look at it. -/
instance decidableForallOk {ε α : Type} (x : Except ε α) (P : α → Prop)
    [DecidablePred P] :
    Decidable (∀ a, x = .ok a → P a) :=
  match x with
  | .ok a =>
    decidable_of_iff (P a) ⟨fun holds _ same => Except.ok.inj same ▸ holds,
      fun all => all a rfl⟩
  | .error _ => isTrue nofun

instance decidableExistsOk {ε α : Type} (x : Except ε α) :
    Decidable (∃ a, x = .ok a) :=
  match x with
  | .ok a => isTrue ⟨a, rfl⟩
  | .error _ => isFalse nofun

theorem toOption_any_iff {ε α : Type} {x : Except ε α} {P : α → Bool} :
    x.toOption.any P = true ↔ ∃ a, x = .ok a ∧ P a = true := by
  cases x <;> simp [Except.toOption]

theorem exists_forall₂ {α β : Type} {R : α → β → Prop} {xs : List α}
    (each : ∀ x ∈ xs, ∃ y, R x y) :
    ∃ ys, List.Forall₂ R xs ys := by
  induction xs with
  | nil => exact ⟨[], .nil⟩
  | cons x xs ih =>
    obtain ⟨first, others⟩ := List.forall_mem_cons.mp each
    obtain ⟨y, here⟩ := first
    obtain ⟨ys, there⟩ := ih others
    exact ⟨y :: ys, .cons here there⟩

theorem exists_getElem?_of_forall₂ {α β : Type} {R : α → β → Prop} {xs : List α}
    {ys : List β} {i : Nat} {y : β} (all : List.Forall₂ R xs ys)
    (here : ys[i]? = some y) : ∃ x, xs[i]? = some x ∧ R x y := by
  induction all generalizing i with
  | nil => cases here
  | cons first _ ih =>
    cases i with
    | zero =>
      cases here
      exact ⟨_, rfl, first⟩
    | succ i => exact ih here

theorem map_eq_of_forall₂ {α β γ : Type} {R : α → β → Prop} {f : α → γ}
    {f' : β → γ} {xs : List α} {ys : List β} (all : List.Forall₂ R xs ys)
    (same : ∀ x y, R x y → f x = f' y) : xs.map f = ys.map f' := by
  induction all with
  | nil => rfl
  | cons first _ ih => rw [List.map_cons, List.map_cons, same _ _ first, ih]

theorem exists_enclosable_errorPattern :
    ∃ q, Enclosable errorPattern.toList q ∧ q.branches.close.recorded = 0 := by
  obtain ⟨q, read, complete, plain, none⟩ : ∃ q,
      Pattern.readPattern .initial 0 errorPattern.toList = .ok q ∧
      q.opened = [] ∧ q.flags.verbose = false ∧ q.branches.close.recorded = 0 :=
    ⟨_, rfl, rfl, rfl, rfl⟩
  exact ⟨q, IsPattern.enclosable_of_flags
    ⟨Pattern.reads_of_readPattern read, complete⟩ plain, none⟩

/-- An alternative can stand between parentheses, and what is counted in it are
the groups that it records. -/
structure ReadsTo (a : (Role × String) × Nat) (q : Progress) : Prop where
  enclosable : Enclosable a.1.2.toList q
  count : a.2 = q.branches.close.recorded

theorem LexiconParts.exists_readers (parts : p.MadeOf g options)
    (alone : ∀ r ∈ p.rules, ∃ own, Compiled.ofText? r.fragment = .ok own) :
    ∃ qs, List.Forall₂ ReadsTo p.counted qs := by
  refine exists_forall₂ fun a mem => ?_
  rcases List.mem_append.mp mem with token | other
  · obtain ⟨r, listed, rfl⟩ := List.mem_map.mp token
    obtain ⟨compiled, ok⟩ := alone r listed
    have between := (Grammar.of_tokenRule (parts.rules r listed)).2.2.1
    obtain ⟨q, enclosable, rfl, same⟩ :=
      Compiled.enclosable_of_ofText? ok between
    exact ⟨q, enclosable, congrArg (· - 1) same⟩
  · rcases List.mem_cons.mp other with rfl | error
    · obtain ⟨compiled, ok, count⟩ := parts.groups
      obtain ⟨whole, between, -⟩ :=
        Grammar.of_whitespacePattern parts.whitespace
      obtain ⟨q, enclosable, rfl, same⟩ :=
        Compiled.enclosable_of_ofText? ok between
      exact ⟨q, enclosable, count⟩
    · obtain ⟨q, enclosable, none⟩ := exists_enclosable_errorPattern
      split at error
      · cases List.mem_singleton.mp error
        exact ⟨q, enclosable, none.symm⟩
      · cases error

theorem LexiconParts.readers_ne_nil {qs : List Progress}
    (readers : List.Forall₂ ReadsTo p.counted qs) :
    qs ≠ [] := by
  rintro rfl
  have := readers.length_eq
  simp [counted] at this

/-- The master pattern is read as the choice of what its alternatives are read
as. -/
theorem LexiconParts.master_eq (whole : p.lexicon = .ok c) {qs : List Progress}
    (readers : List.Forall₂ ReadsTo p.counted qs) :
    c.master = .ofExpr (Expr.ofParts (numberParts 1 qs)) := by
  obtain ⟨e, read, same⟩ :=
    Compiled.ofText?_eq_ok_iff_exists.mp (compile_of_lexicon whole).1
  have patterns : List.Forall₂ Enclosable (p.counted.map (·.1.2.toList))
      qs := by
    rw [List.forall₂_map_left_iff]
    exact readers.imp fun _ _ h => h.enclosable
  rw [toList_source p] at read
  rw [← same, Pattern.ofText?_choiceOf patterns (readers_ne_nil readers) read]

/-! ## The numbers of the groups -/

/-- The groups of alternatives, numbered from `next` on, each behind those
counted in front. -/
def numberCounted (next : Nat) :
    List ((Role × String) × Nat) → List (Nat × Role)
  | [] => []
  | ((role, _), inner) :: as =>
    (next, role) :: numberCounted (next + 1 + inner) as

theorem map_numberGroups (next : Nat) (rules : List LexicalRule)
    (behind : List ((Role × String) × Nat)) :
    numberCounted next (rules.map (fun r =>
      ((.token r.kind, r.fragment), r.innerGroups)) ++ behind) =
      (Lexicon.numberGroups next rules).1.map
      (fun (group, kind) => (group, .token kind)) ++
        numberCounted (Lexicon.numberGroups next rules).2 behind := by
  induction rules generalizing next with
  | nil => rfl
  | cons r rules ih =>
    simp only [List.map_cons, List.cons_append, numberCounted, ih]
    rfl

theorem LexiconParts.outerGroups_eq (whole : p.lexicon = .ok c) :
    c.outerGroups = numberCounted 1 p.counted := by
  obtain ⟨-, -, -, tokens, white, error⟩ := compile_of_lexicon whole
  rw [counted, map_numberGroups, Lexicon.outerGroups, tokens, white, error,
    errorGroup, groups]
  cases p.fallback <;> rfl

theorem getElem?_numberCounted (next : Nat) (as : List ((Role × String) × Nat))
    (i : Nat) :
    (numberCounted next as)[i]? = as[i]?.map fun a =>
      (next + ((as.take i).map (·.2 + 1)).sum, a.1.1) := by
  induction as generalizing next i with
  | nil => rfl
  | cons a as ih =>
    cases i with
    | zero => rfl
    | succ i =>
      simp only [numberCounted, List.getElem?_cons_succ, ih,
        List.take_succ_cons, List.map_cons, List.sum_cons]
      congr! 3
      omega

theorem map_numberCounted (next : Nat) (as : List ((Role × String) × Nat)) :
    (numberCounted next as).map (·.2) = as.map (·.1.1) := by
  induction as generalizing next with
  | nil => rfl
  | cons a as ih => simp only [numberCounted, List.map_cons, ih]

end

/-! ## Why there is no lexicon -/

/-- Whether `x`, if it fails, fails with an error of a kind. -/
def FailsAs {ε α : Type} (P : ε → Prop) (x : Except ε α) : Prop :=
  ∀ e, x = .error e → P e

namespace FailsAs

variable {ε α β : Type} {P : ε → Prop} {x : Except ε α}

theorem ok (a : α) : FailsAs P (.ok a) := nofun

theorem error {e : ε} (h : P e) : FailsAs P (.error e : Except ε α) := by
  intro e' same
  cases same
  exact h

theorem bind {f : α → Except ε β} (first : FailsAs P x)
    (rest : ∀ a, x = .ok a → FailsAs P (f a)) :
    FailsAs P (x >>= f) := by
  cases x with
  | error e => exact error (first e rfl)
  | ok a => exact rest a rfl

theorem mapM {f : α → Except ε β} {as : List α}
    (h : ∀ a ∈ as, FailsAs P (f a)) : FailsAs P (as.mapM f) := by
  induction as with
  | nil => exact ok []
  | cons a as ih =>
    rw [List.mapM_cons]
    exact (h a (.head _)).bind fun _ _ =>
      (ih fun a mem => h a (.tail _ mem)).bind fun _ _ => ok _

end FailsAs

/-- Whether a pattern is the fragment of a rule, or the one for white space
without a rule. -/
def Grammar.IsFragment (g : Grammar) (pattern : String) : Prop :=
  pattern = defaultWhitespace ∨ ∃ id, g.fragmentText id = .ok pattern

/-- Whether errors of a kind are all that the parts of a lexicon fail with. -/
structure Grammar.CoversFailures (g : Grammar) (options : LexiconOptions)
    (P : AssemblyFault → Prop) : Prop where
  matchesEmpty : ∀ name, P (.refused (.matchesEmpty name))
  noTokenRules : P (.refused .noTokenRules)
  special : ∀ name id, g.id? name = some id → FailsAs P (g.specialFragment id)
  token : ∀ kind ∈ g.tokenKinds options.reserved,
    FailsAs P (g.fragmentText kind.id)
  alone : ∀ pattern, g.IsFragment pattern → FailsAs P (compilePart pattern)
  between : ∀ pattern, g.IsFragment pattern →
    FailsAs P (compilePart (anchored pattern))
  master : ∀ p, LexiconParts.ofGrammar g options = .ok p →
    FailsAs P (compilePart p.source)

namespace Grammar

variable {g : Grammar} {options : LexiconOptions}

theorem isFragment_of_specialFragment {id : SymbolId} {pattern : String}
    (made : g.specialFragment id = .ok pattern) :
    g.IsFragment pattern := by
  rw [specialFragment] at made
  split at made
  · exact .inr ⟨id, made⟩
  · cases made

theorem isFragment_of_whitespacePattern {reserved : Reserved} {pattern : String}
    (made : g.whitespacePattern reserved = .ok pattern) :
    g.IsFragment pattern := by
  have checked {text : String} (fragment : g.IsFragment text)
      (made : (compilePart (anchored text) >>= fun whole =>
        if whole.matchesIn [] then
          .error (.refused (.matchesEmpty reserved.whitespace))
        else pure text) = .ok pattern) :
      g.IsFragment pattern := by
    obtain ⟨whole, -, made⟩ := bind_ok_iff.mp made
    split at made
    · cases made
    · cases made
      exact fragment
  rw [whitespacePattern] at made
  split at made
  · obtain ⟨text, special, made⟩ := bind_ok_iff.mp made
    exact checked (isFragment_of_specialFragment special) made
  · exact checked (.inl rfl) made

namespace CoversFailures

variable {P : AssemblyFault → Prop}

theorem whitespacePattern (h : g.CoversFailures options P) :
    FailsAs P (g.whitespacePattern options.reserved) := by
  have checked (pattern : String) (fragment : g.IsFragment pattern) :
      FailsAs P (compilePart (anchored pattern) >>= fun whole =>
        if whole.matchesIn [] then .error
          (.refused (.matchesEmpty options.reserved.whitespace))
        else pure pattern) := by
    refine (h.between pattern fragment).bind fun whole _ => ?_
    split
    · exact .error (h.matchesEmpty _)
    · exact .ok _
  rw [Grammar.whitespacePattern]
  split
  · next found =>
      exact (h.special _ _ found).bind fun pattern made =>
        checked pattern (isFragment_of_specialFragment made)
  · exact .bind (.ok _) fun pattern made =>
      checked pattern (.inl (Except.ok.inj made).symm)

theorem configurationRule (h : g.CoversFailures options P) {kind : TokenKind}
    (mem : kind ∈ g.configurationKinds options.reserved) :
    FailsAs P (g.configurationRule kind) := by
  obtain ⟨name, -, kind⟩ := List.mem_filterMap.mp mem
  obtain ⟨id, found, rfl⟩ := Option.map_eq_some_iff.mp kind
  refine (h.special _ _ found).bind fun fragment made => ?_
  exact (h.between _ (isFragment_of_specialFragment made)).bind fun _ _ => .ok _

theorem tokenRule (h : g.CoversFailures options P) {kind : TokenKind}
    (mem : kind ∈ g.tokenKinds options.reserved) :
    FailsAs P (g.tokenRule kind) := by
  refine (h.token kind mem).bind fun fragment made => .bind ?_ fun rule _ => ?_
  · exact (h.between _ (.inr ⟨kind.id, made⟩)).bind fun _ _ => .ok _
  · split
    · exact .error (h.matchesEmpty _)
    · exact .ok _

theorem ofGrammar (h : g.CoversFailures options P) :
    FailsAs P (Lexicon.ofGrammar g options) := by
  refine .bind ?_ fun parts made => (h.master parts made).bind fun _ _ => .ok _
  refine h.whitespacePattern.bind fun whitespace white =>
      .bind (.mapM fun _ => h.configurationRule) fun _ _ =>
    .bind (.mapM fun _ => h.tokenRule) fun rules _ => ?_
  dsimp only
  split
  · exact .error h.noTokenRules
  · exact (h.alone _ (isFragment_of_whitespacePattern white)).bind
      fun _ _ => .ok _

end CoversFailures

end Grammar

end Lexigram
