import Lexigram.Proofs.Grammar.Denotation
import Lexigram.Proofs.Grammar.Edits
import Lexigram.Proofs.Grammar.PlainSuccess
import Lexigram.Proofs.Lexis.Assembly
import Lexigram.Proofs.Lexis.References

/-!
What is checked of a grammar and what makes a lexicon of it fail. The check goes
through all rules, the lexicon is put together along the references from some of
them. On a grammar made plain both find the same: the rules it starts from lead
to every reference of every rule (`Grammar.PlainForm.transGen_refers`), and
every symbol is mentioned by a rule. So a grammar with a lexicon has no fault,
and one without a fault fails to have one by its patterns only
(`Grammar.fault?_agrees`).
-/

namespace Lexigram

open Pattern (bind_ok_iff mapM_ok_iff)
open Relation (ReflTransGen TransGen)

namespace Grammar

variable {g h : Grammar}

/-! ## What is checked -/

theorem tokenFault?_eq_none_iff {rule : SymbolId} {u : Token SymbolId} :
    g.tokenFault? rule u = none ↔ u.isEmptyGroup = false ∧ ∀ t ∈ u.target?,
      (g.rule? t).isSome = true := by
  cases u with
  | literal p => simp [tokenFault?, Token.isEmptyGroup, Token.target?]
  | reference t =>
    rw [tokenFault?]
    cases defined : g.rule? t <;> simp [Token.isEmptyGroup,
      Token.target?, defined]
  | group m members =>
    cases members <;> simp [tokenFault?, Token.isEmptyGroup, Token.target?]

theorem ruleFault?_eq_none_iff {rule : SymbolId}
    {as : List (Alternative SymbolId)} :
    g.ruleFault? rule as = none ↔ IsFilledRule as ∧ ∀ t ∈ ruleTargets as,
      (g.rule? t).isSome = true := by
  rw [ruleFault?, IsFilledRule]
  split
  · next isEmpty =>
    have nil : as = [] := List.isEmpty_iff.mp isEmpty
    exact iff_of_false (by simp) fun h => h.1.1 nil
  · next notEmpty =>
    have nonempty : as ≠ [] := fun nil => notEmpty (List.isEmpty_iff.mpr nil)
    simp only [List.findSome?_eq_none_iff,
      tokenFault?_eq_none_iff, Token.Filled, ruleTargets, Token.targets,
      List.mem_flatMap, List.mem_filterMap]
    constructor
    · intro h
      refine ⟨⟨nonempty, fun a chosen u inside => (h a chosen u inside).1⟩, ?_⟩
      rintro t ⟨a, chosen, u, inside, target⟩
      exact (h a chosen u inside).2 t target
    · rintro ⟨⟨-, filled⟩, defined⟩ a chosen u inside
      exact ⟨filled a chosen u inside,
        fun t target => defined t ⟨a, chosen, u, inside, target⟩⟩

/-- A grammar has no fault if every rule has alternatives, no group is without
members, and every reference is to a symbol with a rule. -/
theorem fault?_eq_none_iff : g.fault? = none ↔
    ∀ rule ∈ g.rules, IsFilledRule rule.2 ∧ ∀ t ∈ ruleTargets rule.2,
    (g.rule? t).isSome = true := by
  simp only [fault?, List.findSome?_eq_none_iff, ruleFault?_eq_none_iff]

theorem isFilledRule_of_isPlainRule {as : List (Alternative SymbolId)}
    (plain : IsPlainRule as) : IsFilledRule as :=
  ⟨plain.1, fun a chosen u inside => by
    cases u with
    | literal p => rfl
    | reference t => rfl
    | group m members => cases plain.2 a chosen _ inside⟩

/-- In a plain grammar faults are references to symbols without a rule. -/
theorem fault?_eq_none_iff_of_isPlain (plain : g.IsPlain) :
    g.fault? = none ↔ ∀ rule ∈ g.rules, ∀ t ∈ ruleTargets rule.2,
      (g.rule? t).isSome = true := by
  rw [fault?_eq_none_iff]
  exact forall₂_congr fun rule mem =>
    and_iff_right (isFilledRule_of_isPlainRule (plain rule mem))

/-! ## References of a grammar made plain -/

/-- The rule of a symbol that was there leads, in the plain grammar, to all that
it refers to, groups included. -/
theorem PlainForm.transGen_refers {recursion : Recursion}
    {flat : Rules} {draft : Draft} (form : PlainForm recursion flat draft h g)
    (known : g.WellScoped) {rule : SymbolId × List (Alternative SymbolId)}
    (mem : rule ∈ g.rules) {t : SymbolId} (target : t ∈ ruleTargets rule.2) :
    TransGen h.Refers rule.1 t := by
  obtain ⟨plain, stands, key, marked, all, eq⟩ :=
    exists_mem_of_forall₂ form.flattened mem
  obtain ⟨a, chosen, target⟩ := List.mem_flatMap.mp target
  obtain ⟨us, variant, flattened⟩ := exists_mem_of_forall₂ all chosen
  obtain ⟨r, first, path⟩ := flattened.reaches target
  have refers : h.Refers rule.1 r := by
    refine ⟨plain.2, ?_, List.mem_flatMap.mpr ⟨us.map (·.1), ?_, first⟩⟩
    · rw [← key]
      exact (form.mem_rules_iff known).mpr (.inl stands)
    · rw [eq]
      exact mem_withVariants.mpr ⟨us, variant,
        by rw [omissions_eq_cons]; exact List.mem_cons_self⟩
  refine .head' refers (ReflTransGen.mono ?_ _ _ path)
  rintro r t ⟨as, made, target⟩
  exact ⟨as, (form.mem_rules_iff known).mpr (.inr made), target⟩

/-- No symbol of a grammar that is read is made up. -/
theorem synthetic_eq_false_of_ofText? {text : List Char}
    (read : ofText? text = .ok g) {symbol : Symbol} (mem : symbol ∈ g.symbols) :
    symbol.synthetic = false := by
  obtain ⟨ds, -, rfl⟩ := ofText?_eq_ok_iff_ofDefinitions.mp read
  rw [ofDefinitions, symbols_foldl_define, foldl_internIn_eq] at mem
  obtain ⟨name, -, rfl⟩ := List.mem_map.mp mem
  rfl

/-! ## What a lexicon is put together of -/

theorem exists_fragment_of_specialFragment {id : SymbolId} {text : String}
    (made : g.specialFragment id = .ok text) :
    ∃ cs, g.fragment id = .ok cs := by
  rw [specialFragment] at made
  split at made
  · exact ⟨_, fragment_of_fragmentText made⟩
  · cases made

/-- A lexicon has a fragment of each rule whose symbol is not made up: as that
of white space, as one for configuration or as one of a kind of token. -/
theorem exists_fragment_of_ofGrammar (order : g.InOrder)
    {options : LexiconOptions} {c : Lexicon}
    (made : Lexicon.ofGrammar g options = .ok c) {id : SymbolId}
    {symbol : Symbol} (there : g.symbol? id = some symbol)
    (given : symbol.synthetic = false) (rule : id ∈ Table.keys g.rules) :
    ∃ cs, g.fragment id = .ok cs := by
  obtain ⟨parts, ok, -⟩ := bind_ok_iff.mp made
  obtain ⟨whitespace, white, ok⟩ := bind_ok_iff.mp ok
  obtain ⟨configuration, configured, ok⟩ := bind_ok_iff.mp ok
  obtain ⟨rules, all, -⟩ := bind_ok_iff.mp ok
  have named : g.id? symbol.name = some id :=
    order.id?_eq_some_iff.mpr ⟨symbol, there, rfl⟩
  by_cases isWhite : options.reserved.whitespace = symbol.name
  · rw [whitespacePattern, isWhite, named] at white
    obtain ⟨text, special, -⟩ := bind_ok_iff.mp white
    exact exists_fragment_of_specialFragment special
  · by_cases configures : symbol.name ∈ options.reserved.configuration
    · have kind : ⟨id, symbol.name⟩ ∈ g.configurationKinds options.reserved :=
        List.mem_filterMap.mpr ⟨symbol.name, configures, by rw [named]; rfl⟩
      obtain ⟨r, -, ok⟩ :=
        exists_mem_of_forall₂ (mapM_ok_iff.mp configured) kind
      obtain ⟨text, special, -⟩ := bind_ok_iff.mp ok
      exact exists_fragment_of_specialFragment special
    · have kind : ⟨id, symbol.name⟩ ∈ g.tokenKinds options.reserved := by
        refine List.mem_filterMap.mpr ⟨id, rule, ?_⟩
        simp [there, given, Reserved.contains, isWhite, configures]
      obtain ⟨r, -, ok⟩ := exists_mem_of_forall₂ (mapM_ok_iff.mp all) kind
      exact ⟨_, fragment_of_fragmentText (of_tokenRule ok).2.1⟩

theorem ExplainsFailure.fragmentText (id : SymbolId) :
    FailsAs g.Explains (g.fragmentText id) := fun _ =>
  explains_of_fragmentText

theorem coversFailures_explains (g : Grammar) (options : LexiconOptions) :
    g.CoversFailures options g.Explains := by
  have compiles (pattern : String) :
      FailsAs g.Explains (compilePart pattern) := by
    rw [compilePart]
    split
    · exact .ok _
    · exact .error trivial
  refine ⟨fun _ => trivial, trivial, fun name id found => ?_,
    fun kind _ => ExplainsFailure.fragmentText kind.id,
    fun _ _ => compiles _, fun _ _ => compiles _, fun _ _ => compiles _⟩
  rw [specialFragment]
  split
  · exact ExplainsFailure.fragmentText id
  · next missing =>
    obtain ⟨lt, -⟩ := List.findIdx?_eq_some_iff_getElem.mp found
    exact .error ⟨lt, by simpa using missing, rfl⟩

/-- What the lexicon of a grammar fails for is there in the grammar. -/
theorem ExplainsFailure.ofGrammar (options : LexiconOptions) :
    FailsAs g.Explains (Lexicon.ofGrammar g options) :=
  (coversFailures_explains g options).ofGrammar

/-! ## Agreement -/

/-- A grammar that is made plain, of one without made-up symbols, has no fault
if it has a lexicon. -/
theorem fault?_eq_none_of_ofGrammar {recursion : Recursion}
    (tidy : g.Tidy) (given : ∀ symbol ∈ g.symbols, symbol.synthetic = false)
    (made : g.plain recursion = .ok h) {options : LexiconOptions} {c : Lexicon}
    (ok : Lexicon.ofGrammar h options = .ok c) : h.fault? = none := by
  obtain ⟨flat, draft, form⟩ := exists_plainForm tidy.known made
  have tidy' : h.Tidy := tidy_plain tidy made
  have fragments : ∀ source ∈ g.rules, ∃ cs, h.fragment source.1 = .ok cs := by
    intro source stands
    have lt := (tidy.known source stands).1
    obtain ⟨new, symbols, -⟩ := form.grows.symbols
    have there : h.symbol? source.1 = some g.symbols[source.1] := by
      rw [symbol?, form.symbols_eq, symbols, List.getElem?_append_left lt,
        List.getElem?_eq_getElem lt]
    have key : source.1 ∈ Table.keys flat :=
      form.keys_flat ▸ List.mem_map_of_mem stands
    obtain ⟨rule, plain, same⟩ := List.mem_map.mp key
    have kept : source.1 ∈ Table.keys h.rules :=
      same ▸ List.mem_map_of_mem ((form.mem_rules_iff tidy.known).mpr
        (.inl plain))
    exact exists_fragment_of_ofGrammar tidy'.inOrder ok there
      (given _ (List.getElem_mem lt)) kept
  refine (fault?_eq_none_iff_of_isPlain (isPlain_of_plain made)).mpr
    fun rule mem t target => ?_
  obtain ⟨source, stands, comes⟩ := form.exists_source tidy.known mem
  obtain ⟨a, chosen, target⟩ := List.mem_flatMap.mp target
  -- the reference is one of the rule that was there, or to a symbol that was
  -- made up for it
  rcases comes.targets a chosen t target with old | created
  · obtain ⟨cs, fragment⟩ := fragments source stands
    exact isSome_of_fragment tidy'.ordered fragment
      (form.transGen_refers tidy.known stands old)
  · cases created with
    | rule created =>
      exact isSome_rule?_of_mem_keys (List.mem_map_of_mem
        ((form.mem_rules_iff tidy.known).mpr (.inr created)))

/-- A tidy grammar without a fault fails to have a lexicon by its patterns
only. -/
theorem exists_refused_of_fault?_eq_none (tidy : g.Tidy)
    (none : g.fault? = none) {options : LexiconOptions} {e : AssemblyFault}
    (failed : Lexicon.ofGrammar g options = .error e) :
    ∃ why, e = .refused why := by
  have defined : ∀ rule ∈ g.rules, ∀ t ∈ ruleTargets rule.2,
      (g.rule? t).isSome = true :=
    fun rule mem => (fault?_eq_none_iff.mp none rule mem).2
  cases e with
  | refused why => exact ⟨why, rfl⟩
  | undefinedRule r name t target =>
    obtain ⟨⟨⟨as, mem, stands⟩, missing⟩, -⟩ :=
      ExplainsFailure.ofGrammar options _ failed
    have found := defined _ mem t stands
    rw [missing] at found
    cases found
  | missingSpecialRule id name =>
    obtain ⟨lt, missing, -⟩ := ExplainsFailure.ofGrammar options _ failed
    -- its own rule or another mentions the symbol
    obtain ⟨rule, mem, mentions⟩ := tidy.mentioned id lt
    have found : (g.rule? id).isSome = true := by
      rcases List.mem_cons.mp mentions with rfl | target
      · exact isSome_rule?_of_mem_keys (List.mem_map_of_mem mem)
      · exact defined rule mem id target
    rw [missing] at found
    cases found

/-- **What is checked of a grammar agrees with what its lexicon needs.** Take a
grammar that is read and made plain. If it has a lexicon, whatever the options,
then it has no fault; if it has no fault, then its lexicon can only fail for its
patterns; and where a reference to a symbol without a rule is reported, by the
lexicon or by a fragment, it is there. -/
theorem fault?_agrees {text : List Char} {recursion : Recursion}
    (read : ofText? text = .ok g) (made : g.plain recursion = .ok h)
    (options : LexiconOptions) :
    (∀ c, Lexicon.ofGrammar h options = .ok c → h.fault? = none) ∧
      (h.fault? = none → ∀ e, Lexicon.ofGrammar h options = .error e →
        ∃ why, e = .refused why) ∧
        ∀ r name t target, (Lexicon.ofGrammar h options
            = .error (.undefinedRule r name t target) ∨
            ∃ id, h.fragmentText id = .error (.undefinedRule r name t target)) →
          h.Dangles r t ∧ name = h.nameOf r ∧ target = h.nameOf t := by
  have tidy := tidy_of_ofText? read
  refine ⟨fun c ok => ?_, fun none e failed => ?_, ?_⟩
  · exact fault?_eq_none_of_ofGrammar tidy
      (fun _ => synthetic_eq_false_of_ofText? read) made ok
  · exact exists_refused_of_fault?_eq_none (tidy_plain tidy made) none failed
  · rintro r name t target (failed | ⟨id, failed⟩)
    · exact ExplainsFailure.ofGrammar options _ failed
    · exact ExplainsFailure.fragmentText id _ failed

end Grammar

/-- A rule with a reference in a group, and perhaps one of the symbol it refers
to. -/
def optionalGroup (others : Rules) : Grammar where
  symbols := [⟨"a", false⟩, ⟨"b", false⟩]
  rules := (0, [[.literal "x", .group .optional [.reference 1, .literal "z"]]])
    :: others
  parameters := []
  start := none

/-- Without a rule for the other symbol there is no lexicon, as the rule made up
for the group shows, and there is a fault; with one there is a lexicon, and no
fault. -/
theorem optionalGroup_agrees :
    (Grammar.ofText? "<a> ::= \"x\" \x7b<b> \"z\"\x7d? ;".toList
      = .ok (optionalGroup []) ∧
      ∃ h, (optionalGroup []).plain .right = .ok h ∧
        Lexicon.ofGrammar h ⟨true, .default⟩
          = .error (.undefinedRule 2 "__bnf_2" 1 "b") ∧ h.Dangles 2 1 ∧
          h.fault? ≠ none) ∧
      Grammar.ofText?
          "<a> ::= \"x\" \x7b<b> \"z\"\x7d? ; <b> ::= \"y\" ;".toList
          = .ok (optionalGroup [(1, [[.literal "y"]])]) ∧
        ∃ h, (optionalGroup [(1, [[.literal "y"]])]).plain .right = .ok h ∧
          (∃ c, Lexicon.ofGrammar h ⟨true, .default⟩ = .ok c) ∧
          h.fault? = none := by
  have read : Grammar.ofText? "<a> ::= \"x\" \x7b<b> \"z\"\x7d? ;".toList
      = .ok (optionalGroup []) := by
    decide +kernel
  have read' : Grammar.ofText?
      "<a> ::= \"x\" \x7b<b> \"z\"\x7d? ; <b> ::= \"y\" ;".toList
      = .ok (optionalGroup [(1, [[.literal "y"]])]) := by
    decide +kernel
  obtain ⟨h, made, failed⟩ : ∃ h, (optionalGroup []).plain .right = .ok h ∧
      Lexicon.ofGrammar h ⟨true, .default⟩
      = .error (.undefinedRule 2 "__bnf_2" 1 "b") := ⟨_, rfl, by decide +kernel⟩
  obtain ⟨h', made', c, ok⟩ : ∃ h,
      (optionalGroup [(1, [[.literal "y"]])]).plain .right = .ok h ∧
      ∃ c, Lexicon.ofGrammar h ⟨true, .default⟩ = .ok c :=
    ⟨_, rfl, by decide +kernel⟩
  obtain ⟨-, refused, reported⟩ :=
    Grammar.fault?_agrees read made ⟨true, .default⟩
  refine ⟨⟨read, h, made, failed, (reported 2 _ 1 _ (.inl failed)).1,
    fun none => ?_⟩,
    read', h', made', ⟨c, ok⟩, (Grammar.fault?_agrees read' made' _).1 c ok⟩
  obtain ⟨why, same⟩ := refused none _ failed
  cases same

end Lexigram
