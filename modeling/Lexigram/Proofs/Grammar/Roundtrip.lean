import Lexigram.Proofs.Grammar.PlainForm

/-!
# Reading undoes writing

The definitions of a tidy grammar say its names, its rules, its parameters and
its start symbol; they are read back from its text, and make a grammar that
agrees with it in all of these, by name. Grammars that were read are tidy, also
when they were made plain.
-/

namespace Lexigram

/-! ## What definitions say -/

theorem targets_readBack (a : Alternative String) :
    Token.targets a.readBack = Token.targets a := by
  unfold Alternative.readBack
  split <;> simp

theorem Definition.mentions_readBack (d : Definition) :
    d.readBack.mentions = d.mentions := by
  cases d with
  | parameter key value => rfl
  | rule name start as =>
    simp only [readBack, mentions, List.flatMap_map, targets_readBack]

theorem Definition.parameter?_readBack (d : Definition) :
    d.readBack.parameter? = d.parameter? := by
  cases d <;> rfl

theorem Definition.startName?_readBack (d : Definition) :
    d.readBack.startName? = d.startName? := by
  cases d with
  | parameter key value => rfl
  | rule name start as => cases start <;> rfl

namespace Grammar

variable {g : Grammar}

theorem filterMap_parameter?_rules (g : Grammar) :
    (g.rules.map fun (id, alternatives) =>
      g.definitionOf id alternatives).filterMap Definition.parameter? = [] := by
  rw [List.filterMap_map]
  exact List.filterMap_eq_nil_iff.mpr fun _ _ => rfl

theorem filterMap_parameter?_definitions (g : Grammar) :
    g.definitions.filterMap Definition.parameter? = g.parameters := by
  rw [definitions, List.filterMap_append, filterMap_parameter?_rules,
    List.append_nil, List.filterMap_map]
  exact (congrFun List.filterMap_eq_map g.parameters).trans (List.map_id _)

/-- Every symbol of a tidy grammar is mentioned by its definitions, and no other
name. -/
theorem mem_names_iff_mentioned (tidy : g.Tidy) {name : String} :
    name ∈ g.names ↔ ∃ d ∈ g.definitions, name ∈ d.mentions := by
  have mentions (rule : SymbolId × List (Alternative SymbolId)) :
      (g.definitionOf rule.1 rule.2).mentions
        = (ruleMentions rule).map g.nameOf := by
    simp only [definitionOf, Definition.mentions, ruleMentions, List.map_cons,
      List.map_flatMap, List.flatMap_map, Token.targets_mapAll]
  constructor
  · intro mem
    obtain ⟨rule, stands, mentioned⟩ := tidy.mentioned _ (idIn_lt mem)
    refine ⟨g.definitionOf rule.1 rule.2,
      List.mem_append_right _ (List.mem_map.mpr ⟨rule, stands, rfl⟩), ?_⟩
    rw [mentions, ← nameIn_idIn mem]
    exact List.mem_map_of_mem mentioned
  · rintro ⟨d, mem, mentioned⟩
    rcases List.mem_append.mp mem with mem | mem
    · obtain ⟨entry, _, rfl⟩ := List.mem_map.mp mem
      cases mentioned
    · obtain ⟨rule, stands, rfl⟩ := List.mem_map.mp mem
      rw [mentions] at mentioned
      obtain ⟨id, own, rfl⟩ := List.mem_map.mp mentioned
      refine nameIn_mem ?_
      rcases List.mem_cons.mp own with rfl | own
      · exact (tidy.known rule stands).1
      · obtain ⟨a, chosen, target⟩ := List.mem_flatMap.mp own
        exact (tidy.known rule stands).2 a chosen id target

/-- A name has the rule that the definitions of the grammar give it. -/
theorem namedRule?_eq_some_iff_mem (tidy : g.Tidy) {name : String}
    {as : List (Alternative String)} :
    g.namedRule? name = some as ↔ ∃ start,
      .rule name start as ∈ g.definitions := by
  rw [namedRule?_eq_some_iff tidy.distinct tidy.known]
  constructor
  · rintro ⟨id, alternatives, rule, rfl, rfl⟩
    exact ⟨_, List.mem_append_right _
      (List.mem_map.mpr ⟨(id, alternatives), Table.mem_of_find? rule, rfl⟩)⟩
  · rintro ⟨start, mem⟩
    rcases List.mem_append.mp mem with mem | mem
    · obtain ⟨entry, _, eq⟩ := List.mem_map.mp mem
      cases eq
    · obtain ⟨⟨id, alternatives⟩, stands, eq⟩ := List.mem_map.mp mem
      obtain ⟨rfl, _, rfl⟩ := Definition.rule.inj eq
      exact ⟨id, alternatives, Table.find?_of_mem tidy.ordered.nodup stands,
        rfl, rfl⟩

theorem mem_startNames_iff {name : String} :
    name ∈ g.definitions.filterMap Definition.startName?
      ↔ ∃ id ∈ g.start, id ∈ Table.keys g.rules ∧ g.nameOf id = name := by
  rw [List.mem_filterMap]
  constructor
  · rintro ⟨d, mem, said⟩
    rcases List.mem_append.mp mem with mem | mem
    · obtain ⟨entry, _, rfl⟩ := List.mem_map.mp mem
      cases said
    · obtain ⟨rule, stands, rfl⟩ := List.mem_map.mp mem
      by_cases start : g.start = some rule.1
      · simp only [definitionOf, start, decide_true,
          Definition.startName?, Option.some.injEq] at said
        exact ⟨rule.1, start, List.mem_map_of_mem stands, said⟩
      · simp [definitionOf, start, Definition.startName?] at said
  · rintro ⟨id, start, mem, rfl⟩
    obtain ⟨rule, stands, rfl⟩ := List.mem_map.mp mem
    refine ⟨g.definitionOf rule.1 rule.2,
      List.mem_append_right _ (List.mem_map.mpr ⟨rule, stands, rfl⟩), ?_⟩
    simp [definitionOf, show g.start = some rule.1
      from start, Definition.startName?]

/-- The definitions of a tidy grammar name its start symbol, if it has one. -/
theorem getLast?_startNames (tidy : g.Tidy) :
    (g.definitions.filterMap Definition.startName?).getLast?
      = g.startName? := by
  cases last : (g.definitions.filterMap Definition.startName?).getLast? with
  | some name =>
    obtain ⟨id, start, -, rfl⟩ :=
      mem_startNames_iff.mp (List.mem_of_getLast? last)
    rw [startName?, show g.start = some id from start]
    rfl
  | none =>
    cases start : g.start with
    | none => rw [startName?, start]; rfl
    | some id =>
      have mem := mem_startNames_iff.mpr ⟨id, start, tidy.started id start, rfl⟩
      rw [List.getLast?_eq_none_iff.mp last] at mem
      cases mem

/-! ## Reading back -/

/-- Reading undoes writing for tidy grammars: names, parameters and the start
symbol are the same, and every name has the same alternatives, but that the
empty literal alone is read as no tokens. -/
theorem Tidy.ofText?_write (tidy : g.Tidy) :
    ∃ h, Grammar.ofText? g.write = .ok h ∧ h.names.Perm g.names
      ∧ h.parameters = g.parameters
      ∧ h.startName? = g.startName?
      ∧ ∀ name, h.namedRule? name = (g.namedRule? name).map
      (·.map Alternative.readBack) := by
  have read : Grammar.ofText? g.write
      = .ok (ofDefinitions (g.definitions.map Definition.readBack)) := by
    rw [ofText?, write, ofText_writeDefinitions (areWritable_definitions tidy)]
    rfl
  have consistent :=
    consistent_empty.foldl_define (g.definitions.map Definition.readBack)
  refine ⟨_, read, ?_, ?_, ?_, fun name => ?_⟩
  · -- both mention the same names, and none of them twice
    refine (List.perm_ext_iff_of_nodup consistent.distinct tidy.distinct).mpr
      fun name => ?_
    rw [mem_names_iff_mentioned tidy]
    refine mem_names_foldl_define.trans ?_
    simp [Definition.mentions_readBack, names, namesIn, empty]
  · rw [ofDefinitions, parameters_foldl_define, List.filterMap_map]
    have same : Definition.parameter? ∘ Definition.readBack
        = Definition.parameter? :=
      funext Definition.parameter?_readBack
    rw [same, filterMap_parameter?_definitions]
    exact Table.insertAll_of_ordered tidy.parametersOrdered
  · rw [ofDefinitions, startName?_foldl_define consistent_empty,
      List.filterMap_map]
    have same : Definition.startName? ∘ Definition.readBack
        = Definition.startName? :=
      funext Definition.startName?_readBack
    rw [same, getLast?_startNames tidy]
    exact Option.or_none
  · have ruleNames : (g.definitions.map Definition.readBack).filterMap
        Definition.ruleName? = g.ruleNames := by
      rw [List.filterMap_map, show Definition.ruleName? ∘ Definition.readBack
        = Definition.ruleName? from funext Definition.ruleName?_readBack,
        filterMap_ruleName?_definitions]
    cases rule : g.namedRule? name with
    | some as =>
      obtain ⟨start, mem⟩ := (namedRule?_eq_some_iff_mem tidy).mp rule
      exact namedRule?_foldl_define_of_mem consistent_empty
        (by rw [ruleNames]; exact nodup_ruleNames tidy)
        (List.mem_map.mpr ⟨_, mem, rfl⟩)
    | none =>
      refine (namedRule?_foldl_define_of_not_mem consistent_empty ?_).trans rfl
      rw [ruleNames, ← filterMap_ruleName?_definitions]
      intro defined
      obtain ⟨d, mem, named⟩ := List.mem_filterMap.mp defined
      cases d with
      | parameter key value => cases named
      | rule name' start as =>
        obtain rfl := Option.some.inj named
        rw [(namedRule?_eq_some_iff_mem tidy).mpr ⟨start, mem⟩] at rule
        cases rule

/-- **Reading undoes writing.** The text of a grammar that was read, and perhaps
made plain, is read as the same grammar: with the same names, parameters and
start symbol, and for every name the same alternatives token for token, but that
an alternative of one empty literal is read as the one without tokens. -/
theorem reading_undoes_writing {text : List Char}
    {original g : Grammar} (read : ofText? text = .ok original)
    (same : g = original ∨ ∃ recursion, original.plain recursion = .ok g) :
    ∃ h, ofText? g.write = .ok h ∧ h.names.Perm g.names
      ∧ h.parameters = g.parameters
      ∧ h.startName? = g.startName?
      ∧ ∀ name, h.namedRule? name = (g.namedRule? name).map
      (·.map Alternative.readBack) := by
  have tidy : g.Tidy := by
    rcases same with rfl | ⟨recursion, plain⟩
    · exact tidy_of_ofText? read
    · exact tidy_plain (tidy_of_ofText? read) plain
  exact tidy.ofText?_write

/-- `<#v> := "1" ;` and `<!s> ::= "" | {"a\"" {<t>}?}* <s> ;`. -/
def emptyAndGroups : List Definition :=
  [.parameter "v" "1", .rule "s" true [[],
    [.group .zeroOrMore [.literal "a\\\"", .group .optional [.reference "t"]],
      .reference "s"]]]

theorem areWritable_emptyAndGroups : AreWritable [] emptyAndGroups := by
  simp only [AreWritable, emptyAndGroups, Definition.IsWritable,
    Definition.ruleName?, IsWritable]
  decide

/-- Made plain, the grammar has seven alternatives in three rules, one of them
empty; its text is read back. -/
theorem emptyAndGroups_read_back :
    ofText? (writeDefinitions emptyAndGroups)
      = .ok (ofDefinitions emptyAndGroups) ∧
    ∃ g, (ofDefinitions emptyAndGroups).plain .left = .ok g
    ∧ g.alternativeCount = 7 ∧
    ∃ h, ofText? g.write = .ok h ∧ h.names.Perm g.names
      ∧ h.parameters = g.parameters
      ∧ h.startName? = g.startName?
      ∧ ∀ name, h.namedRule? name = (g.namedRule? name).map
      (·.map Alternative.readBack) := by
  have read : ofText? (writeDefinitions emptyAndGroups)
      = .ok (ofDefinitions emptyAndGroups) := by
    rw [ofText?, ofText_writeDefinitions areWritable_emptyAndGroups]
    rfl
  exact ⟨read, _, rfl, rfl, reading_undoes_writing read (.inr ⟨.left, rfl⟩)⟩

end Grammar

end Lexigram
