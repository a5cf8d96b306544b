import Mathlib.Data.List.Perm.Subperm
import Lexigram.Proofs.Grammar.Flattening
import Lexigram.Proofs.Grammar.Names
import Lexigram.Proofs.Grammar.ReadBack

/-!
What is made up while the groups of a grammar are replaced: symbols with names
of their own, and a rule for each. The rule of a made-up symbol has only
literals of the rule whose group it stands for, and refers to what that rule
refers to, to symbols made up before it was complete, and to itself in one place
if it repeats (`MadeFrom`).
-/

namespace Lexigram

/-! ## Free names -/

theorem toList_syntheticName (n : Nat) :
    (syntheticName n).toList = "__bnf_".toList ++ Nat.toDigits 10 n := by
  rw [syntheticName, String.toList_append]
  exact congrArg _ String.toList_ofList

theorem isNameChar_of_isDigit {c : Char} (h : c.isDigit = true) :
    isNameChar c = true := by
  simp only [Char.isDigit, Bool.and_eq_true, decide_eq_true_eq] at h
  have low : 48 ≤ c.toNat := UInt32.le_iff_toNat_le.mp h.1
  have high : c.toNat ≤ 57 := UInt32.le_iff_toNat_le.mp h.2
  simp [isNameChar, Unicode.isAsciiAlphanumeric, low, high]

theorem isName_syntheticName (n : Nat) : IsName (syntheticName n) := by
  rw [IsName, toList_syntheticName]
  refine ⟨List.append_ne_nil_of_left_ne_nil (by decide) _, fun c mem => ?_⟩
  rcases List.mem_append.mp mem with mem | mem
  · exact List.all_eq_true.mp (by decide) c mem
  · exact isNameChar_of_isDigit (Nat.isDigit_of_mem_toDigits (by decide)
      (by decide) mem)

theorem syntheticName_injective {m n : Nat}
    (h : syntheticName m = syntheticName n) : m = n := by
  have digits : Nat.toDigits 10 m = Nat.toDigits 10 n := by
    have := congrArg String.toList h
    rwa [toList_syntheticName, toList_syntheticName, List.append_right_inj]
      at this
  have value (n : Nat) : Nat.ofDigitChars 10 (Nat.toDigits 10 n) 0 = n :=
    Nat.ofDigitChars_toDigits (by decide) (Nat.le_refl 10)
  rw [← value m, digits, value n]

/-- The search for a free number skips taken ones only, and ends early only at a
free one. -/
theorem freeNumber_spec (symbols : List Symbol) (tries n : Nat) :
    n ≤ freeNumber symbols tries n
      ∧ (∀ k, n ≤ k → k < freeNumber symbols tries n →
        syntheticName k ∈ namesIn symbols)
      ∧ (syntheticName (freeNumber symbols tries n) ∈ namesIn symbols →
        freeNumber symbols tries n = n + tries) := by
  induction tries generalizing n with
  | zero =>
    exact ⟨Nat.le_refl n, fun k le lt => absurd lt (Nat.not_lt_of_le le),
      fun _ => rfl⟩
  | succ tries ih =>
    have taken : symbols.any (·.name = syntheticName n) = true
        ↔ syntheticName n ∈ namesIn symbols := by
      simp [namesIn]
    rw [freeNumber]
    split
    · next yes =>
      obtain ⟨le, skipped, last⟩ := ih (n + 1)
      refine ⟨Nat.le_of_succ_le le, fun k ge lt => ?_,
        fun mem => (last mem).trans (by omega)⟩
      rcases Nat.eq_or_lt_of_le ge with rfl | gt
      · exact taken.mp yes
      · exact skipped k gt lt
    · next no =>
      exact ⟨Nat.le_refl n, fun k ge lt => absurd lt (Nat.not_lt_of_le ge),
        fun mem => absurd (taken.mpr mem) no⟩

/-- There are more numbers to try than symbols, so a name is found that no
symbol has. -/
theorem freeName_not_mem (symbols : List Symbol) :
    freeName symbols ∉ namesIn symbols := by
  intro mem
  obtain ⟨-, skipped, last⟩ :=
    freeNumber_spec symbols symbols.length symbols.length
  have all :
      ((List.range' symbols.length (symbols.length + 1)).map syntheticName)
      ⊆ namesIn symbols := by
    intro name tried
    obtain ⟨k, range, rfl⟩ := List.mem_map.mp tried
    obtain ⟨i, lt, rfl⟩ := List.mem_range'.mp range
    by_cases early : symbols.length + 1 * i
      < freeNumber symbols symbols.length symbols.length
    · exact skipped _ (by omega) early
    · have found := last mem
      rw [freeName, found] at mem
      rwa [show symbols.length + 1 * i
        = symbols.length + symbols.length by omega]
  have distinct : ((List.range' symbols.length (symbols.length + 1)).map
      syntheticName).Nodup :=
    List.Nodup.map (fun _ _ => syntheticName_injective) List.nodup_range'
  have := (distinct.subperm all).length_le
  simp at this

/-! ## Made-up rules -/

/-- Whether the alternatives of a rule refer to the rule itself in one place at
most: in front of the rest of an alternative, or behind it. There is an
alternative that does not. -/
structure RepeatsAt (side : Recursion) (id : SymbolId)
    (alternatives : List (Alternative SymbolId)) : Prop where
  again : ∀ a ∈ alternatives, id ∈ Token.targets a →
    ∃ body, a = side.extend id body ∧ body ≠ [] ∧ id ∉ Token.targets body
  base : ∃ a ∈ alternatives, id ∉ Token.targets a

theorem RepeatsAt.of_forall_not_mem {side : Recursion} {id : SymbolId}
    {alternatives : List (Alternative SymbolId)} (some : alternatives ≠ [])
    (h : ∀ a ∈ alternatives, id ∉ Token.targets a) :
    RepeatsAt side id alternatives := by
  obtain ⟨a, as, rfl⟩ := List.exists_cons_of_ne_nil some
  exact ⟨fun a mem target => absurd target (h a mem), a, List.mem_cons_self,
    h a List.mem_cons_self⟩

theorem repeatsAt_extend {side : Recursion}
    {id : SymbolId} {body : Alternative SymbolId} (some : body ≠ [])
    (h : id ∉ Token.targets body) :
    RepeatsAt side id [side.extend id body, body] where
  again a mem target := by
    rcases List.mem_cons.mp mem with rfl | mem
    · exact ⟨body, rfl, some, h⟩
    · obtain rfl := List.mem_singleton.mp mem
      exact absurd target h
  base := ⟨body, by simp, h⟩

section MadeFrom

variable (recursion : Recursion)
  (made : List (SymbolId × List (Alternative SymbolId))) (P : String → Prop)
  (Q : SymbolId → Prop)

/-- `MadeFrom recursion made P Q id`: the rule of `id` is among those made, its
literals are in `P`, and it refers to itself as a repetition does, to symbols in
`Q`, and to others that are made so. -/
inductive MadeFrom : SymbolId → Prop where
  | rule {id : SymbolId} {alternatives : List (Alternative SymbolId)}
      (mem : (id, alternatives) ∈ made)
      (patterns : ∀ a ∈ alternatives, ∀ p ∈ Token.patterns a, P p)
      (repeats : RepeatsAt recursion id alternatives)
      (targets : ∀ a ∈ alternatives, ∀ t ∈ Token.targets a, t ≠ id → ¬ Q t →
        MadeFrom t) : MadeFrom id

end MadeFrom

theorem MadeFrom.mono {recursion : Recursion}
    {made more : List (SymbolId × List (Alternative SymbolId))}
    {P P' : String → Prop} {Q Q' : SymbolId → Prop}
    {id : SymbolId} (h : MadeFrom recursion made P Q id) (sub : made ⊆ more)
    (patterns : ∀ p, P p → P' p) (targets : ∀ t, Q t → Q' t) :
    MadeFrom recursion more P' Q' id := by
  induction h with
  | rule mem literals repeats _ ih =>
    exact .rule (sub mem) (fun a chosen p stands => patterns p
      (literals a chosen p stands)) repeats fun a chosen t stands other new =>
        ih a chosen t stands other fun old => new (targets t old)

/-- Whether the literals of tokens are in `P` and the targets in `Q`, or made up
from `low` to `high`. -/
structure Within (P : String → Prop) (Q : SymbolId → Prop) (low high : Nat)
    (ts : Alternative SymbolId) : Prop where
  patterns : ∀ p ∈ Token.patterns ts, P p
  targets : ∀ t ∈ Token.targets ts, Q t ∨ low ≤ t ∧ t < high

/-- `e` is `d` with more symbols, each with a free name and a made-up rule. -/
structure Draft.Grows (recursion : Recursion) (P : String → Prop)
    (Q : SymbolId → Prop) (e d : Draft) : Prop where
  symbols : ∃ new, e.symbols = d.symbols ++ new ∧ ∀ symbol ∈ new,
    IsName symbol.name
  distinct : (namesIn d.symbols).Nodup → (namesIn e.symbols).Nodup
  subset : d.created ⊆ e.created
  made : ∀ id, d.symbols.length ≤ id → id < e.symbols.length →
    MadeFrom recursion e.created P Q id

namespace Draft.Grows

variable {recursion : Recursion} {P : String → Prop} {Q : SymbolId → Prop}
  {d e f : Draft}

theorem refl (d : Draft) : d.Grows recursion P Q d where
  symbols := ⟨[], (List.append_nil _).symm, List.forall_mem_nil _⟩
  distinct := id
  subset := List.Subset.refl _
  made _ ge lt := absurd lt (Nat.not_lt_of_le ge)

theorem trans (first : e.Grows recursion P Q d)
    (second : f.Grows recursion P Q e) : f.Grows recursion P Q d where
  symbols := by
    obtain ⟨new₁, eq₁, names₁⟩ := first.symbols
    obtain ⟨new₂, eq₂, names₂⟩ := second.symbols
    exact ⟨new₁ ++ new₂, by rw [eq₂, eq₁, List.append_assoc],
      List.forall_mem_append.mpr ⟨names₁, names₂⟩⟩
  distinct h := second.distinct (first.distinct h)
  subset := List.Subset.trans first.subset second.subset
  made id ge lt := by
    by_cases old : id < e.symbols.length
    · exact (first.made id ge old).mono second.subset (fun _ h => h)
        (fun _ h => h)
    · exact second.made id (Nat.le_of_not_lt old) lt

theorem mono {P' : String → Prop} {Q' : SymbolId → Prop}
    (h : e.Grows recursion P Q d) (patterns : ∀ p, P p → P' p)
    (targets : ∀ t, Q t → Q' t) : e.Grows recursion P' Q' d :=
  { h with
    made := fun id ge lt =>
      (h.made id ge lt).mono (List.Subset.refl _) patterns targets }

theorem length_le (h : e.Grows recursion P Q d) :
    d.symbols.length ≤ e.symbols.length := by
  obtain ⟨new, eq, -⟩ := h.symbols
  simp [eq]

/-- A free name is added: the draft that grows from there has it. -/
theorem symbols_of_pending (h : e.Grows recursion P Q
      { d with symbols := d.symbols ++ [⟨freeName d.symbols, true⟩] }) :
    (∃ new, e.symbols = d.symbols ++ new ∧ ∀ symbol ∈ new, IsName symbol.name)
      ∧ ((namesIn d.symbols).Nodup → (namesIn e.symbols).Nodup) := by
  obtain ⟨new, eq, names⟩ := h.symbols
  refine ⟨⟨⟨freeName d.symbols, true⟩ :: new,
    by rw [eq, List.append_assoc]; rfl,
    List.forall_mem_cons.mpr ⟨isName_syntheticName _, names⟩⟩,
    fun distinct => h.distinct ?_⟩
  rw [namesIn, List.map_append]
  refine List.nodup_append.mpr ⟨distinct, by simp, ?_⟩
  rintro name mem free last rfl
  obtain rfl := List.mem_singleton.mp last
  exact freeName_not_mem d.symbols mem

/-- The symbol that was added first gets its rule last. -/
theorem addRule {alternatives : List (Alternative SymbolId)}
    (h : e.Grows recursion P Q { d with
      symbols := d.symbols ++ [⟨freeName d.symbols, true⟩] })
    (within : ∀ a ∈ alternatives,
      Within P Q d.symbols.length e.symbols.length a)
    (repeats : RepeatsAt recursion d.symbols.length alternatives) :
    Draft.Grows recursion P Q { e with
      created := e.created ++ [(d.symbols.length, alternatives)] } d where
  symbols := h.symbols_of_pending.1
  distinct := h.symbols_of_pending.2
  subset := List.Subset.trans h.subset (List.subset_append_left _ _)
  made id ge lt := by
    have later : ∀ t, d.symbols.length + 1 ≤ t → t < e.symbols.length →
        MadeFrom recursion (e.created ++ [(d.symbols.length, alternatives)]) P Q
        t := fun t ge lt =>
      (h.made t (by simpa using ge) lt).mono (List.subset_append_left _ _)
        (fun _ h => h) (fun _ h => h)
    rcases Nat.eq_or_lt_of_le ge with rfl | gt
    · refine .rule (by simp) (fun a mem => (within a mem).patterns) repeats
        fun a mem t target other new => ?_
      obtain ⟨low, high⟩ := ((within a mem).targets t target).resolve_left new
      exact later t (Nat.lt_of_le_of_ne low (Ne.symm other)) high
    · exact later id gt lt

/-- A symbol is added together with its rule, which refers to symbols made up
before. -/
theorem newRule {alternatives : List (Alternative SymbolId)}
    (h : e.Grows recursion P Q d) (within : ∀ a ∈ alternatives,
      Within P Q d.symbols.length e.symbols.length a)
    (some : alternatives ≠ []) (old : ∀ t, Q t → t < d.symbols.length) :
    Draft.Grows recursion P Q
      { symbols := e.symbols ++ [⟨freeName e.symbols, true⟩]
        created := e.created ++ [(e.symbols.length, alternatives)] } d := by
  have before : ∀ a ∈ alternatives, ∀ t ∈ Token.targets a,
      t < e.symbols.length := fun a mem t target =>
    ((within a mem).targets t target).elim
      (fun q => Nat.lt_of_lt_of_le (old t q) h.length_le) (·.2)
  have pending := (Draft.Grows.refl
    { e with symbols := e.symbols ++ [⟨freeName e.symbols, true⟩] } :
    Draft.Grows recursion P Q _ _).symbols_of_pending
  obtain ⟨⟨new, eq, names⟩, distinct⟩ := pending
  refine {
    symbols := ?_
    distinct := fun nodup => distinct (h.distinct nodup)
    subset := List.Subset.trans h.subset (List.subset_append_left _ _)
    made := fun id ge lt => ?_ }
  · obtain ⟨new₁, eq₁, names₁⟩ := h.symbols
    exact ⟨new₁ ++ new, by rw [← List.append_assoc, ← eq₁]; exact eq,
      List.forall_mem_append.mpr ⟨names₁, names⟩⟩
  · have earlier : ∀ t, d.symbols.length ≤ t → t < e.symbols.length →
        MadeFrom recursion (e.created ++ [(e.symbols.length, alternatives)]) P Q
        t := fun t ge lt =>
      (h.made t ge lt).mono (List.subset_append_left _ _) (fun _ h => h)
        (fun _ h => h)
    rcases Nat.eq_or_lt_of_le
      (Nat.le_of_lt_succ (by simpa using lt : id < e.symbols.length + 1))
      with rfl | lt
    · refine .rule (by simp) (fun a mem => (within a mem).patterns)
        (.of_forall_not_mem some fun a mem target => Nat.lt_irrefl _
          (before a mem _ target)) fun a mem t target other new => ?_
      obtain ⟨low, high⟩ := ((within a mem).targets t target).resolve_left new
      exact earlier t low high
    · exact earlier id ge lt

end Draft.Grows

/-! ## Tokens within bounds -/

namespace Within

variable {P : String → Prop} {Q : SymbolId → Prop} {low high : Nat}
  {ts us : Alternative SymbolId}

theorem nil : Within P Q low high [] :=
  ⟨List.forall_mem_nil _, List.forall_mem_nil _⟩

theorem append_iff : Within P Q low high (ts ++ us) ↔
    Within P Q low high ts ∧ Within P Q low high us := by
  constructor
  · rintro ⟨patterns, targets⟩
    rw [Token.patterns_append, List.forall_mem_append] at patterns
    rw [Token.targets_append, List.forall_mem_append] at targets
    exact ⟨⟨patterns.1, targets.1⟩, patterns.2, targets.2⟩
  · rintro ⟨first, second⟩
    constructor
    · rw [Token.patterns_append]
      exact List.forall_mem_append.mpr ⟨first.patterns, second.patterns⟩
    · rw [Token.targets_append]
      exact List.forall_mem_append.mpr ⟨first.targets, second.targets⟩

theorem cons_iff {t : Token SymbolId} :
    Within P Q low high (t :: ts) ↔
      Within P Q low high [t] ∧ Within P Q low high ts := by
  rw [← List.singleton_append]
  exact append_iff

theorem group_iff {m : Multiplicity} {members : Alternative SymbolId} :
    Within P Q low high [.group m members] ↔ Within P Q low high members := by
  constructor
  · rintro ⟨patterns, targets⟩
    exact ⟨by simpa using patterns, by simpa using targets⟩
  · rintro ⟨patterns, targets⟩
    exact ⟨by simpa using patterns, by simpa using targets⟩

theorem reference {t : SymbolId} (ge : low ≤ t) (lt : t < high) :
    Within P Q low high [.reference t] where
  patterns := by simp
  targets := by
    intro t' mem
    obtain rfl : t' = t := by simpa using mem
    exact .inr ⟨ge, lt⟩

theorem widen {low' high' : Nat} (h : Within P Q low high ts) (le : low' ≤ low)
    (ge : high ≤ high') :
    Within P Q low' high' ts where
  patterns := h.patterns
  targets t mem := (h.targets t mem).imp_right fun range =>
    ⟨Nat.le_trans le range.1, Nat.lt_of_lt_of_le range.2 ge⟩

/-- Tokens with nothing made up are within any bounds. -/
theorem of_given {n : Nat} (h : Within P Q n n ts) (low high : Nat) :
    Within P Q low high ts where
  patterns := h.patterns
  targets t mem := .inl ((h.targets t mem).resolve_right fun range =>
    Nat.not_lt_of_le range.1 range.2)

/-- What is left when tokens are left out. -/
theorem of_mem_omissions {marked : List (Token SymbolId × Bool)}
    {v : Alternative SymbolId} (h : Within P Q low high (marked.map (·.1)))
    (variant : v ∈ omissions marked) : Within P Q low high v := by
  induction marked generalizing v with
  | nil =>
    obtain rfl : v = [] := by simpa using variant
    exact nil
  | cons u marked ih =>
    obtain ⟨t, nullable⟩ := u
    obtain ⟨first, rest⟩ := cons_iff.mp h
    rcases mem_omissions_cons.mp variant with ⟨v', shorter, rfl⟩ | ⟨-, shorter⟩
    · exact cons_iff.mpr ⟨first, ih rest shorter⟩
    · exact ih rest shorter

/-- Tokens within bounds do not refer to symbols out of them. -/
theorem not_mem {id : SymbolId} (h : Within P Q low high ts) (old : ¬ Q id)
    (before : id < low) :
    id ∉ Token.targets ts := fun mem =>
  (h.targets id mem).elim old fun range => Nat.not_lt_of_le range.1 before

end Within

/-! ## Runs -/

section Runs

variable {recursion : Recursion} {P : String → Prop} {Q : SymbolId → Prop}
  {d e inside : Draft}

/-- What the rule of a repetition repeats is made up with the members. -/
theorem repeatedBody_grows {alternatives : List (Alternative SymbolId)}
    {body : Alternative SymbolId} (grown : inside.Grows recursion P Q d)
    (old : ∀ t, Q t → t < d.symbols.length) (within : ∀ a ∈ alternatives, Within
      P Q d.symbols.length inside.symbols.length a) (some : alternatives ≠ [])
    (first : ∀ only, alternatives = [only] → only ≠ [])
    (h : repeatedBody alternatives inside = .ok body e) :
    e.Grows recursion P Q d ∧
      Within P Q d.symbols.length e.symbols.length body ∧ body ≠ [] := by
  unfold repeatedBody at h
  split at h
  · next only =>
    obtain ⟨rfl, rfl⟩ := Drafting.pure_eq_ok.mp h
    exact ⟨grown, within _ List.mem_cons_self, first _ rfl⟩
  · obtain ⟨id, _, fresh, h⟩ := Drafting.bind_eq_ok.mp h
    obtain ⟨rfl, rfl⟩ := Drafting.newSymbol_eq_ok.mp fresh
    obtain ⟨_, _, added, h⟩ := Drafting.bind_eq_ok.mp h
    obtain rfl := Drafting.addRule_eq_ok.mp added
    obtain ⟨rfl, rfl⟩ := Drafting.pure_eq_ok.mp h
    exact ⟨grown.newRule within some old, .reference grown.length_le (by simp),
      by simp⟩

theorem within_extend {low high : Nat} {id : SymbolId}
    {body : Alternative SymbolId} (h : Within P Q low high body) (ge : low ≤ id)
    (lt : id < high) :
    Within P Q low high (recursion.extend id body) := by
  cases recursion with
  | left => exact Within.cons_iff.mpr ⟨.reference ge lt, h⟩
  | right => exact Within.append_iff.mpr ⟨h, .reference ge lt⟩

/-- The rule of a group is made up once its members are. -/
theorem completeGroup_grows {m : Multiplicity}
    {inner : List (Token SymbolId × Bool)}
    {u : Unit} (grown : inside.Grows recursion P Q
      { d with symbols := d.symbols ++ [⟨freeName d.symbols, true⟩] })
    (old : ∀ t, Q t → t < d.symbols.length) (within : Within P Q
      (d.symbols.length + 1) inside.symbols.length (inner.map (·.1)))
    (some : inner ≠ []) (h : completeGroup recursion m d.symbols.length
      (omissions inner) inside = .ok u e) :
    e.Grows recursion P Q d ∧ d.symbols.length < e.symbols.length := by
  have own : ¬ Q d.symbols.length := fun q => Nat.lt_irrefl _ (old _ q)
  have variants : ∀ v ∈ omissions inner,
      Within P Q (d.symbols.length + 1) inside.symbols.length v :=
    fun v variant => within.of_mem_omissions variant
  have nonempty : omissions inner ≠ [] := by
    rw [omissions_eq_cons]; exact List.cons_ne_nil _ _
  have pending : (d.symbols ++ [(⟨freeName d.symbols, true⟩ : Symbol)]).length
      = d.symbols.length + 1 := by
    simp
  have length := grown.length_le
  rw [pending] at length
  unfold completeGroup at h
  split at h
  · obtain ⟨body, later, repeats, added⟩ := Drafting.bind_eq_ok.mp h
    obtain rfl := Drafting.addRule_eq_ok.mp added
    obtain ⟨grown', within', some'⟩ := repeatedBody_grows grown
      (fun t q => by rw [pending]; exact Nat.lt_succ_of_lt (old t q))
      (by simpa only [pending] using variants) nonempty
      (fun only eq => by
        rw [omissions_eq_cons] at eq
        obtain ⟨rfl, -⟩ := List.cons.inj eq
        simpa using some) repeats
    have length' := grown'.length_le
    rw [pending] at within' length'
    -- the symbol itself is not in the body, and stands in the first alternative
    -- once
    refine ⟨grown'.addRule ?_ (repeatsAt_extend some'
      (within'.not_mem own (Nat.lt_succ_self _))), length'⟩
    have wide := within'.widen (Nat.le_succ _) (Nat.le_refl _)
    intro a mem
    rcases List.mem_cons.mp mem with rfl | mem
    · exact within_extend wide (Nat.le_refl _) length'
    · exact List.mem_singleton.mp mem ▸ wide
  · obtain rfl := Drafting.addRule_eq_ok.mp h
    exact ⟨grown.addRule
      (fun a mem => (variants a mem).widen (Nat.le_succ _) (Nat.le_refl _))
      (.of_forall_not_mem nonempty fun a mem =>
        (variants a mem).not_mem own (Nat.lt_succ_self _)), length⟩

mutual

theorem flattenToken_grows (t : Token SymbolId)
    {owner : SymbolId} {u : Token SymbolId} {d e : Draft}
    (old : ∀ t, Q t → t < d.symbols.length) (given : Within P Q 0 0 [t])
    (h : flattenToken recursion owner t d = .ok u e) :
    e.Grows recursion P Q d ∧ Within P Q d.symbols.length e.symbols.length
      [u] := by
  match t with
  | .literal p =>
    rw [flattenToken] at h
    obtain ⟨rfl, rfl⟩ := Drafting.pure_eq_ok.mp h
    exact ⟨.refl _, given.of_given _ _⟩
  | .reference target =>
    rw [flattenToken] at h
    obtain ⟨rfl, rfl⟩ := Drafting.pure_eq_ok.mp h
    exact ⟨.refl _, given.of_given _ _⟩
  | .group m members =>
    obtain ⟨some, ⟨inlined, rfl⟩ | ⟨inner, inside, flat, completed, rfl⟩⟩ :=
      flattenToken_group_eq_ok h
    · obtain ⟨rfl, -, -⟩ := inlined?_eq_some inlined
      exact ⟨.refl _, (Within.group_iff.mp given).of_given _ _⟩
    · obtain ⟨grown, length, within⟩ := flattenAll_grows members
        (fun t q => Nat.lt_of_lt_of_le (old t q) (by simp))
        (Within.group_iff.mp given) flat
      have nonempty : inner ≠ [] := by
        rintro rfl
        exact some (by simpa using length.symm)
      obtain ⟨grown, lt⟩ :=
        completeGroup_grows grown old (by simpa using within) nonempty completed
      exact ⟨grown, .reference (Nat.le_refl _) lt⟩

theorem flattenAll_grows (ts : List (Token SymbolId))
    {owner : SymbolId} {us : List (Token SymbolId × Bool)} {d e : Draft}
    (old : ∀ t, Q t → t < d.symbols.length) (given : Within P Q 0 0 ts)
    (h : flattenAll recursion owner ts d = .ok us e) :
    e.Grows recursion P Q d ∧ us.length = ts.length
      ∧ Within P Q d.symbols.length e.symbols.length (us.map (·.1)) := by
  match ts with
  | [] =>
    rw [flattenAll] at h
    obtain ⟨rfl, rfl⟩ := Drafting.pure_eq_ok.mp h
    exact ⟨.refl _, rfl, .nil⟩
  | t :: ts =>
    rw [flattenAll] at h
    obtain ⟨u, _, first, h⟩ := Drafting.bind_eq_ok.mp h
    obtain ⟨us, _, rest, h⟩ := Drafting.bind_eq_ok.mp h
    obtain ⟨rfl, rfl⟩ := Drafting.pure_eq_ok.mp h
    obtain ⟨here, others⟩ := Within.cons_iff.mp given
    obtain ⟨grown, within⟩ := flattenToken_grows t old here first
    obtain ⟨more, length, withinRest⟩ :=
      flattenAll_grows ts
        (fun t q => Nat.lt_of_lt_of_le (old t q) grown.length_le) others rest
    exact ⟨grown.trans more, congrArg (· + 1) length,
      Within.cons_iff.mpr ⟨within.widen (Nat.le_refl _) more.length_le,
        withinRest.widen grown.length_le (Nat.le_refl _)⟩⟩

end

theorem flattenAlternatives_grows {owner : SymbolId}
    {as : List (Alternative SymbolId)}
    {marked : List (List (Token SymbolId × Bool))} {d e : Draft}
    (old : ∀ t, Q t → t < d.symbols.length) (given : ∀ a ∈ as, Within P Q 0 0 a)
    (h : as.mapM (flattenAll recursion owner) d = .ok marked e) :
    e.Grows recursion P Q d ∧ marked.length = as.length ∧ ∀ us ∈ marked,
      Within P Q d.symbols.length e.symbols.length (us.map (·.1)) := by
  induction as generalizing marked d with
  | nil =>
    rw [List.mapM_nil] at h
    obtain ⟨rfl, rfl⟩ := Drafting.pure_eq_ok.mp h
    exact ⟨.refl _, rfl, List.forall_mem_nil _⟩
  | cons a as ih =>
    rw [List.mapM_cons] at h
    obtain ⟨us, _, first, h⟩ := Drafting.bind_eq_ok.mp h
    obtain ⟨others, _, rest, h⟩ := Drafting.bind_eq_ok.mp h
    obtain ⟨rfl, rfl⟩ := Drafting.pure_eq_ok.mp h
    obtain ⟨grown, -, within⟩ :=
      flattenAll_grows a old (given a List.mem_cons_self) first
    obtain ⟨more, length, withinRest⟩ :=
      ih (fun t q => Nat.lt_of_lt_of_le (old t q) grown.length_le)
        (fun a mem => given a (List.mem_cons_of_mem _ mem)) rest
    refine ⟨grown.trans more, congrArg (· + 1) length,
      List.forall_mem_cons.mpr ⟨?_, fun us mem => ?_⟩⟩
    · exact within.widen (Nat.le_refl _) more.length_le
    · exact (withinRest us mem).widen grown.length_le (Nat.le_refl _)

/-- The alternatives of a rule and their variants. -/
theorem flattenRule_grows {owner : SymbolId}
    {as flat : List (Alternative SymbolId)} {d e : Draft}
    (old : ∀ t, Q t → t < d.symbols.length) (given : ∀ a ∈ as, Within P Q 0 0 a)
    (h : flattenRule recursion owner as d = .ok flat e) :
    e.Grows recursion P Q d ∧ flat ≠ [] ∧ ∀ v ∈ flat,
      Within P Q d.symbols.length e.symbols.length v := by
  unfold flattenRule at h
  split at h
  · exact absurd h Drafting.malformed_ne_ok
  · next some =>
    obtain ⟨marked, _, all, h⟩ := Drafting.bind_eq_ok.mp h
    obtain ⟨rfl, rfl⟩ := Drafting.pure_eq_ok.mp h
    obtain ⟨grown, length, within⟩ := flattenAlternatives_grows old given all
    refine ⟨grown, ?_, fun v mem => ?_⟩
    · have pos : marked ≠ [] := by
        rintro rfl
        exact some (by simpa using length.symm)
      simp [pos]
    · obtain ⟨us, mem, variant⟩ := mem_withVariants.mp mem
      exact (within us mem).of_mem_omissions variant

end Runs

/-! ## All rules -/

/-- The patterns of all literals in the alternatives of a rule. -/
def rulePatterns (as : List (Alternative SymbolId)) : List String :=
  as.flatMap Token.patterns

/-- The targets of all references in the alternatives of a rule. -/
def ruleTargets (as : List (Alternative SymbolId)) : List SymbolId :=
  as.flatMap Token.targets

/-- Made up for the groups of a rule with the alternatives `as`. -/
abbrev MadeFor (recursion : Recursion)
    (made : List (SymbolId × List (Alternative SymbolId)))
    (as : List (Alternative SymbolId)) : SymbolId → Prop :=
  MadeFrom recursion made (· ∈ rulePatterns as) (· ∈ ruleTargets as)

/-- The alternatives `flat` have only literals of `as`, and refer to what `as`
refers to or to symbols made up for its groups. -/
structure ComesFrom (recursion : Recursion)
    (made : List (SymbolId × List (Alternative SymbolId)))
    (as flat : List (Alternative SymbolId)) : Prop where
  nonempty : flat ≠ []
  patterns : ∀ v ∈ flat, ∀ p ∈ Token.patterns v, p ∈ rulePatterns as
  targets : ∀ v ∈ flat, ∀ t ∈ Token.targets v, t ∈ ruleTargets as
    ∨ MadeFor recursion made as t

theorem ComesFrom.mono {recursion : Recursion}
    {made more : List (SymbolId × List (Alternative SymbolId))}
    {as flat : List (Alternative SymbolId)}
    (h : ComesFrom recursion made as flat) (sub : made ⊆ more) :
    ComesFrom recursion more as flat :=
  { h with
    targets := fun v mem t target =>
      (h.targets v mem t target).imp_right
        (·.mono sub (fun _ h => h) (fun _ h => h)) }

theorem within_given {as : List (Alternative SymbolId)}
    {a : Alternative SymbolId} (mem : a ∈ as) :
    Within (· ∈ rulePatterns as) (· ∈ ruleTargets as) 0 0 a where
  patterns _ stands := List.mem_flatMap.mpr ⟨a, mem, stands⟩
  targets _ stands := .inl (List.mem_flatMap.mpr ⟨a, mem, stands⟩)

/-- What is made up for all rules, each symbol for one of them. -/
theorem flattenRules_grows {recursion : Recursion}
    {rules flat : Rules} {d e : Draft}
    (old : ∀ rule ∈ rules, ∀ t ∈ ruleTargets rule.2, t < d.symbols.length)
    (h : flattenRules recursion rules d = .ok flat e) :
    e.Grows recursion (fun p => ∃ rule ∈ rules, p ∈ rulePatterns rule.2)
        (fun t => ∃ rule ∈ rules, t ∈ ruleTargets rule.2) d
      ∧ (∀ id, d.symbols.length ≤ id → id < e.symbols.length →
        ∃ rule ∈ rules, MadeFor recursion e.created rule.2 id)
      ∧ List.Forall₂ (fun x y => y.1 = x.1
        ∧ ComesFrom recursion e.created x.2 y.2) rules flat := by
  induction rules generalizing flat d with
  | nil =>
    rw [flattenRules, List.mapM_nil] at h
    obtain ⟨rfl, rfl⟩ := Drafting.pure_eq_ok.mp h
    exact ⟨.refl _, fun id ge lt => absurd lt (Nat.not_lt_of_le ge), .nil⟩
  | cons rule rules ih =>
    obtain ⟨id, as⟩ := rule
    rw [flattenRules, List.mapM_cons] at h
    obtain ⟨y, _, here, h⟩ := Drafting.bind_eq_ok.mp h
    obtain ⟨others, _, rest, h⟩ := Drafting.bind_eq_ok.mp h
    obtain ⟨rfl, rfl⟩ := Drafting.pure_eq_ok.mp h
    obtain ⟨v, middle, made, done⟩ := Drafting.bind_eq_ok.mp here
    obtain ⟨rfl, rfl⟩ := Drafting.pure_eq_ok.mp done
    obtain ⟨grown, nonempty, within⟩ :=
      flattenRule_grows (P := (· ∈ rulePatterns as))
        (old (id, as) List.mem_cons_self) (fun a mem => within_given mem) made
    obtain ⟨more, owners, all⟩ := ih (fun rule mem t target =>
      Nat.lt_of_lt_of_le (old rule (List.mem_cons_of_mem _ mem) t target)
        grown.length_le) rest
    refine ⟨?_, fun id' ge lt => ?_, .cons ⟨rfl, ?_⟩ all⟩
    · exact (grown.mono (fun p mem => ⟨(id, as), List.mem_cons_self, mem⟩)
        fun t mem => ⟨(id, as), List.mem_cons_self, mem⟩).trans
        (more.mono (fun p ⟨rule, mem, stands⟩ =>
          ⟨rule, List.mem_cons_of_mem _ mem, stands⟩)
          fun t ⟨rule, mem, stands⟩ =>
            ⟨rule, List.mem_cons_of_mem _ mem, stands⟩)
    · -- what was made up up to `middle` is there for this rule
      by_cases mine : id' < middle.symbols.length
      · exact ⟨(id, as), List.mem_cons_self,
          (grown.made id' ge mine).mono more.subset (fun _ h => h)
          (fun _ h => h)⟩
      · obtain ⟨rule, mem, made⟩ := owners id' (Nat.le_of_not_lt mine) lt
        exact ⟨rule, List.mem_cons_of_mem _ mem, made⟩
    · refine ComesFrom.mono ⟨nonempty, fun v mem => (within v mem).patterns,
        fun v mem t target => ?_⟩ more.subset
      exact ((within v mem).targets t target).imp_right fun range =>
        grown.made t range.1 range.2

end Lexigram
