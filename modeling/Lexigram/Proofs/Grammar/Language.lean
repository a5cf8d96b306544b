import Lexigram.Lexis.Lexicon
import Lexigram.Proofs.Grammar.Derivation
import Lexigram.Proofs.Grammar.MadeUp
import Mathlib.Algebra.Order.Monoid.Unbundled.Pow
import Mathlib.Computability.Language
import Mathlib.Order.CompletePartialOrder

/-!
The language of a grammar. A literal stands for the texts that its pattern
matches as a whole, so that a grammar derives texts (`Grammar.derived`). These
languages are the least that the rules allow (`Grammar.derived_le`), and the
rule of a repetition has that of a star (`Grammar.derived_of_repeats`).
-/

namespace Lexigram

open Pattern (Compiled)
open scoped Computability

/-- The texts that a pattern matches as a whole. -/
def Pattern.wholeMatches (pattern : String) : Language UInt8 :=
  { text | ∃ whole, Compiled.ofText? (anchored pattern) = .ok whole ∧
    whole.matchesIn text = true }

/-- Words of a language one behind the other, as many as a multiplicity
allows. -/
def Multiplicity.times (m : Multiplicity) (l : Language UInt8) :
    Language UInt8 :=
  { text | ∃ n, m.Allows n ∧ text ∈ l ^ n }

theorem Multiplicity.times_mono (m : Multiplicity) {l l' : Language UInt8}
    (le : l ≤ l') : m.times l ≤ m.times l' :=
  fun _ ⟨n, allowed, mem⟩ => ⟨n, allowed, pow_le_pow_left' le n mem⟩

theorem Multiplicity.times_one {l : Language UInt8} : one.times l = l := by
  ext text
  constructor
  · rintro ⟨n, rfl, mem⟩
    rwa [pow_one] at mem
  · exact fun mem => ⟨1, rfl, by rwa [pow_one]⟩

theorem Multiplicity.times_zeroOrMore {l : Language UInt8} :
    zeroOrMore.times l = l∗ := by
  ext text
  rw [Language.kstar_eq_iSup_pow, Language.mem_iSup]
  exact exists_congr fun n => iff_of_eq (true_and (text ∈ l ^ n))

/-! ## Tokens in a language -/

namespace Token

mutual

/-- The texts of a token, `X` being those of each reference. -/
def language (X : SymbolId → Language UInt8) : Token SymbolId → Language UInt8
  | .literal p => Pattern.wholeMatches p
  | .reference t => X t
  | .group m ts => m.times (languageAll X ts)

/-- The texts of tokens in sequence. -/
def languageAll (X : SymbolId → Language UInt8) :
    List (Token SymbolId) → Language UInt8
  | [] => 1
  | t :: ts => language X t * languageAll X ts

end

variable {X Y : SymbolId → Language UInt8} {ts us : List (Token SymbolId)}

theorem languageAll_append :
    languageAll X (ts ++ us) = languageAll X ts * languageAll X us := by
  induction ts with
  | nil => exact (one_mul _).symm
  | cons t ts ih =>
    rw [List.cons_append, languageAll, languageAll, ih, mul_assoc]

theorem languageAll_reference (t : SymbolId) :
    languageAll X [.reference t] = X t :=
  mul_one _

/-- Larger languages of the references make larger languages. -/
theorem languageAll_mono (le : ∀ t ∈ targets ts, X t ≤ Y t) :
    languageAll X ts ≤ languageAll Y ts := by
  induction ts using sequence_induction with
  | nil => exact le_refl _
  | literal p ts ih =>
    rw [targets_literal] at le
    exact mul_le_mul_right (ih le) _
  | reference t ts ih =>
    rw [targets_reference, List.forall_mem_cons] at le
    exact mul_le_mul' le.1 (ih le.2)
  | group m members ts inside ih =>
    rw [targets_group, List.forall_mem_append] at le
    exact mul_le_mul' (m.times_mono (inside le.1)) (ih le.2)

theorem languageAll_congr (same : ∀ t ∈ targets ts, X t = Y t) :
    languageAll X ts = languageAll Y ts :=
  le_antisymm (languageAll_mono fun t mem => le_of_eq (same t mem))
    (languageAll_mono fun t mem => ge_of_eq (same t mem))

end Token

/-- The texts of the alternatives of a rule. -/
def languageOf (X : SymbolId → Language UInt8)
    (as : List (Alternative SymbolId)) : Language UInt8 :=
  { text | ∃ a ∈ as, text ∈ Token.languageAll X a }

theorem languageOf_nil {X : SymbolId → Language UInt8} :
    languageOf X [] = 0 := by
  ext text
  exact ⟨fun ⟨_, mem, _⟩ => absurd mem List.not_mem_nil,
    fun mem => absurd mem (Language.notMem_zero text)⟩

theorem languageOf_cons {X : SymbolId → Language UInt8}
    {a : Alternative SymbolId} {as : List (Alternative SymbolId)} :
    languageOf X (a :: as) = Token.languageAll X a + languageOf X as := by
  ext text
  rw [Language.mem_add]
  exact List.exists_mem_cons_iff ..

theorem le_languageOf {X : SymbolId → Language UInt8} {a : Alternative SymbolId}
    {as : List (Alternative SymbolId)} (mem : a ∈ as) :
    Token.languageAll X a ≤ languageOf X as :=
  fun _ here => ⟨a, mem, here⟩

theorem languageOf_le {X : SymbolId → Language UInt8}
    {as : List (Alternative SymbolId)} {l : Language UInt8}
    (le : ∀ a ∈ as, Token.languageAll X a ≤ l) : languageOf X as ≤ l :=
  fun _ ⟨a, mem, here⟩ => le a mem here

theorem languageOf_congr {X Y : SymbolId → Language UInt8}
    {as : List (Alternative SymbolId)}
    (same : ∀ a ∈ as, Token.languageAll X a = Token.languageAll Y a) :
    languageOf X as = languageOf Y as := by
  ext text
  exact exists_congr fun a => and_congr_right fun mem => by rw [same a mem]

/-! ## Beside each other -/

namespace Recursion

/-- Words of one language beside those of another, at the side away from a
reference that recurs there. -/
def beside : Recursion → Language UInt8 → Language UInt8 → Language UInt8
  | right, l, m => l * m
  | left, l, m => m * l

variable (side : Recursion) {l l' m m' : Language UInt8}

theorem beside_mono (le : l ≤ l') (le' : m ≤ m') :
    side.beside l m ≤ side.beside l' m' := by
  cases side with
  | right => exact mul_le_mul' le le'
  | left => exact mul_le_mul' le' le

theorem beside_kstar_le (base : m ≤ m') (again : side.beside l m' ≤ m') :
    side.beside l∗ m ≤ m' := by
  cases side with
  | right => exact kstar_mul_le base again
  | left => exact mul_kstar_le base again

theorem le_beside_kstar : m ≤ side.beside l∗ m := by
  cases side with
  | right => exact (one_mul m).ge.trans (mul_le_mul' one_le_kstar le_rfl)
  | left => exact (mul_one m).ge.trans (mul_le_mul' le_rfl one_le_kstar)

theorem beside_beside_kstar_le :
    side.beside l (side.beside l∗ m) ≤ side.beside l∗ m := by
  cases side with
  | right =>
    rw [beside, beside, ← mul_assoc]
    exact mul_le_mul' mul_kstar_le_kstar le_rfl
  | left =>
    rw [beside, beside, mul_assoc]
    exact mul_le_mul' le_rfl kstar_mul_le_kstar

/-- Words of some alternative beside words of a language. -/
theorem beside_languageOf_le {X : SymbolId → Language UInt8}
    {as : List (Alternative SymbolId)}
    (le : ∀ a ∈ as, side.beside (Token.languageAll X a) m ≤ l) :
    side.beside (languageOf X as) m ≤ l := by
  cases side with
  | right =>
    rintro _ ⟨x, ⟨a, mem, front⟩, y, back, rfl⟩
    exact le a mem (Language.append_mem_mul front back)
  | left =>
    rintro _ ⟨x, front, y, ⟨a, mem, back⟩, rfl⟩
    exact le a mem (Language.append_mem_mul front back)

end Recursion

theorem Token.languageAll_extend {X : SymbolId → Language UInt8}
    {side : Recursion} {id : SymbolId} {ts : Alternative SymbolId} : languageAll
    X (side.extend id ts) = side.beside (languageAll X ts) (X id) := by
  cases side with
  | right =>
    rw [Recursion.extend, languageAll_append,
      languageAll_reference, Recursion.beside]
  | left => rfl

/-! ## What a grammar derives -/

namespace Grammar

/-- The texts that tokens in sequence derive. -/
def derived (g : Grammar) (ts : Alternative SymbolId) : Language UInt8 :=
  { text | ∃ ps, g.Derives ts ps ∧ text ∈ (ps.map Pattern.wholeMatches).prod }

variable {g : Grammar} {ts us : Alternative SymbolId}

theorem derived_nil : g.derived [] = 1 := by
  ext text
  constructor
  · rintro ⟨ps, derives, mem⟩
    rwa [Derives.nil_iff.mp derives] at mem
  · exact fun mem => ⟨[], .nil, mem⟩

theorem derived_append :
    g.derived (ts ++ us) = g.derived ts * g.derived us := by
  ext text
  rw [Language.mem_mul]
  constructor
  · rintro ⟨ps, derives, mem⟩
    obtain ⟨v, w, rfl, first, second⟩ := Derives.append_iff.mp derives
    rw [List.map_append, List.prod_append, Language.mem_mul] at mem
    obtain ⟨x, front, y, back, rfl⟩ := mem
    exact ⟨x, ⟨v, first, front⟩, y, ⟨w, second, back⟩, rfl⟩
  · rintro ⟨x, ⟨v, first, front⟩, y, ⟨w, second, back⟩, rfl⟩
    refine ⟨v ++ w, first.append second, ?_⟩
    rw [List.map_append, List.prod_append]
    exact Language.append_mem_mul front back

theorem derived_cons {t : Token SymbolId} :
    g.derived (t :: ts) = g.derived [t] * g.derived ts :=
  @derived_append g [t] ts

theorem derived_literal {p : String} :
    g.derived [.literal p] = Pattern.wholeMatches p := by
  ext text
  constructor
  · rintro ⟨ps, derives, mem⟩
    cases derives with
    | literal rest =>
      rw [Derives.nil_iff.mp rest,
        List.map_singleton, List.prod_singleton] at mem
      exact mem
  · intro mem
    refine ⟨[p], .literal .nil, ?_⟩
    rwa [List.map_singleton, List.prod_singleton]

theorem derived_reference {t : SymbolId} {as : List (Alternative SymbolId)}
    (rule : g.rule? t = some as) {text : List UInt8} :
    text ∈ g.derived [.reference t] ↔ ∃ a ∈ as, text ∈ g.derived a := by
  constructor
  · rintro ⟨ps, derives, mem⟩
    cases derives with
    | reference rule' chosen inside rest =>
      cases rule.symm.trans rule'
      rw [Derives.nil_iff.mp rest, List.append_nil] at mem
      exact ⟨_, chosen, _, inside, mem⟩
  · rintro ⟨a, chosen, ps, inside, mem⟩
    exact ⟨ps, .of_rule rule chosen inside, mem⟩

/-- Words of which each derives texts, one behind the other. -/
theorem mem_pow_of_flatten {words : List (List String)} {l : Language UInt8}
    (inside : ∀ v ∈ words, ∀ ⦃text⦄, text ∈ (v.map Pattern.wholeMatches).prod →
      text ∈ l) {text : List UInt8}
    (mem : text ∈ (words.flatten.map Pattern.wholeMatches).prod) :
    text ∈ l ^ words.length := by
  induction words generalizing text with
  | nil => exact mem
  | cons v words ih =>
    rw [List.flatten_cons, List.map_append,
      List.prod_append, Language.mem_mul] at mem
    obtain ⟨x, front, y, back, rfl⟩ := mem
    rw [List.length_cons, pow_succ']
    exact Language.append_mem_mul (inside v (.head _) front)
      (ih (fun v mem => inside v (.tail _ mem)) back)

/-- Texts of which each is derived, one behind the other. -/
theorem exists_words_of_mem_pow {n : Nat} {text : List UInt8}
    (mem : text ∈ g.derived ts ^ n) :
    ∃ words : List (List String), words.length = n ∧
      (∀ v ∈ words, g.Derives ts v) ∧
      text ∈ (words.flatten.map Pattern.wholeMatches).prod := by
  induction n generalizing text with
  | zero => exact ⟨[], rfl, List.forall_mem_nil _, mem⟩
  | succ n ih =>
    rw [pow_succ', Language.mem_mul] at mem
    obtain ⟨x, ⟨v, derives, front⟩, y, back, rfl⟩ := mem
    obtain ⟨words, length, inside, here⟩ := ih back
    refine ⟨v :: words, congrArg (· + 1) length,
      List.forall_mem_cons.mpr ⟨derives, inside⟩, ?_⟩
    rw [List.flatten_cons, List.map_append, List.prod_append]
    exact Language.append_mem_mul front here

theorem derived_group {m : Multiplicity} :
    g.derived [.group m ts] = m.times (g.derived ts) := by
  ext text
  constructor
  · rintro ⟨ps, derives, mem⟩
    obtain ⟨words, allowed, inside, rfl⟩ := Derives.group_iff.mp derives
    have each : ∀ v ∈ words, ∀ ⦃text⦄,
        text ∈ (v.map Pattern.wholeMatches).prod → text ∈ g.derived ts :=
      fun v mem _ here => ⟨v, inside v mem, here⟩
    exact ⟨words.length, allowed, mem_pow_of_flatten each mem⟩
  · rintro ⟨n, allowed, mem⟩
    obtain ⟨words, length, inside, here⟩ := exists_words_of_mem_pow mem
    exact ⟨words.flatten, Derives.group_iff.mpr
      ⟨words, length ▸ allowed, inside, rfl⟩, here⟩

/-- The texts of tokens are made of those of the references. -/
theorem derived_eq (g : Grammar) (ts : Alternative SymbolId) :
    g.derived ts = Token.languageAll (fun t => g.derived [.reference t])
      ts := by
  induction ts using Token.sequence_induction with
  | nil => exact derived_nil
  | literal p ts ih => rw [derived_cons, derived_literal, ih]; rfl
  | reference t ts ih => rw [derived_cons, ih]; rfl
  | group m members ts inside ih =>
    rw [derived_cons, derived_group, inside, ih]; rfl

theorem derived_reference_eq {t : SymbolId} {as : List (Alternative SymbolId)}
    (rule : g.rule? t = some as) :
    g.derived [.reference t] = languageOf (fun t => g.derived [.reference t])
      as := by
  ext text
  rw [derived_reference rule]
  exact exists_congr fun a => and_congr_right fun _ => by rw [derived_eq]

/-- Languages that the rules do not lead out of have all that is derived. -/
theorem derived_le {X : SymbolId → Language UInt8} (closed : ∀ id as,
      g.rule? id = some as → ∀ a ∈ as, Token.languageAll X a ≤ X id)
    (ts : Alternative SymbolId) :
    g.derived ts ≤ Token.languageAll X ts := by
  rintro text ⟨ps, derives, mem⟩
  induction derives generalizing text with
  | nil => exact mem
  | literal rest ih =>
    rw [List.map_cons, List.prod_cons, Language.mem_mul] at mem
    obtain ⟨x, front, y, back, rfl⟩ := mem
    exact Language.append_mem_mul front (ih back)
  | reference rule chosen inside rest ihInside ihRest =>
    rw [List.map_append, List.prod_append, Language.mem_mul] at mem
    obtain ⟨x, front, y, back, rfl⟩ := mem
    exact Language.append_mem_mul (closed _ _ rule _ chosen (ihInside front))
      (ihRest back)
  | group words allowed inside rest ihInside ihRest =>
    rw [List.map_append, List.prod_append, Language.mem_mul] at mem
    obtain ⟨x, front, y, back, rfl⟩ := mem
    exact Language.append_mem_mul
      ⟨words.length, allowed, mem_pow_of_flatten ihInside front⟩ (ihRest back)

/-! ## Repetitions -/

/-- Alternatives taken apart: those that do not mention the rule, and what the
others have beside the reference to the rule at one end. -/
structure Splits (side : Recursion) (id : SymbolId)
    (as bodies base : List (Alternative SymbolId)) : Prop where
  plain : ∀ a ∈ base, a ∈ as ∧ id ∉ Token.targets a
  again : ∀ b ∈ bodies, side.extend id b ∈ as ∧ id ∉ Token.targets b
  all : ∀ a ∈ as, a ∈ base ∨ ∃ b ∈ bodies, a = side.extend id b

theorem languageOf_splits {side : Recursion}
    {id : SymbolId} {as bodies base : List (Alternative SymbolId)}
    (splits : Splits side id as bodies base) (X : SymbolId → Language UInt8) :
    languageOf X as = side.beside (languageOf X bodies) (X id)
      + languageOf X base := by
  apply le_antisymm
  · refine languageOf_le fun a mem => ?_
    rcases splits.all a mem with plain | ⟨b, again, rfl⟩
    · exact (le_languageOf plain).trans le_add_self
    · rw [Token.languageAll_extend]
      exact (side.beside_mono (le_languageOf again) le_rfl).trans le_self_add
  · refine add_le (side.beside_languageOf_le fun b mem => ?_)
      (languageOf_le fun a mem => ?_)
    · rw [← Token.languageAll_extend]
      exact le_languageOf (splits.again b mem).1
    · exact le_languageOf (splits.plain a mem).1

/-- The rule of a repetition has the words of what is repeated, any number of
them, beside a word of the base. -/
theorem derived_of_splits {side : Recursion}
    {id : SymbolId} {as bodies base : List (Alternative SymbolId)}
    (splits : Splits side id as bodies base) (rule : g.rule? id = some as) :
    g.derived [.reference id] = side.beside
      (languageOf (fun t => g.derived [.reference t]) bodies)∗
      (languageOf (fun t => g.derived [.reference t]) base) := by
  set L := fun t => g.derived [.reference t]
  set star := side.beside (languageOf L bodies)∗ (languageOf L base) with whole
  have here : L id = side.beside (languageOf L bodies) (L id)
      + languageOf L base := by
    rw [← languageOf_splits splits]
    exact derived_reference_eq rule
  have upper : star ≤ L id :=
    side.beside_kstar_le (le_add_self.trans here.ge) (le_self_add.trans here.ge)
  refine le_antisymm ?_ upper
  -- the same languages with the repetition for the rule are not led out of
  -- either
  have below : Function.update L id star ≤ L := by
    exact update_le_iff.mpr ⟨upper, fun _ _ => le_rfl⟩
  have same {ts : Alternative SymbolId} (absent : id ∉ Token.targets ts) :
      Token.languageAll (Function.update L id star) ts
        = Token.languageAll L ts :=
    Token.languageAll_congr fun t mem =>
      Function.update_of_ne (ne_of_mem_of_not_mem mem absent) _ _
  have closed : ∀ k as, g.rule? k = some as → ∀ a ∈ as,
      Token.languageAll (Function.update L id star) a
      ≤ Function.update L id star k := by
    intro k as' rule' a mem
    by_cases self : k = id
    · subst self
      cases rule.symm.trans rule'
      refine (le_languageOf mem).trans ?_
      rw [languageOf_splits splits, languageOf_congr fun b mem =>
        same (splits.again b mem).2, languageOf_congr fun b mem => same
        (splits.plain b mem).2, Function.update_self]
      exact add_le side.beside_beside_kstar_le side.le_beside_kstar
    · rw [Function.update_of_ne self]
      refine (Token.languageAll_mono fun t _ => below t).trans ?_
      exact (le_languageOf mem).trans (derived_reference_eq rule').ge
  have least := derived_le closed [.reference id]
  rwa [Token.languageAll_reference, Function.update_self] at least

end Grammar

end Lexigram
