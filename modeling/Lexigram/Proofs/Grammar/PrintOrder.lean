import Mathlib.Data.List.Sort
import Lexigram.Proofs.Grammar.Denotation
import Lexigram.Proofs.Grammar.Roundtrip

/-!
# The order of rules

The text of a grammar has its rules by id, and reading gives ids by first
mention. So what is read back of a text has the same definitions, but perhaps in
another order: that in which their names are first mentioned in the text. The
text stays the same exactly if the rules stand in it in this order.
-/

namespace Lexigram

/-! ## What is read is read back as it is -/

theorem readBack_of_mem_kept {ts : List (Token String)} :
    ∀ a ∈ kept ts, a.readBack = a := by
  unfold kept
  split
  · exact List.forall_mem_nil _
  · exact List.forall_mem_singleton.mpr rfl
  · next _ other =>
    refine List.forall_mem_singleton.mpr ?_
    unfold Alternative.readBack
    split
    · exact absurd rfl other
    · rfl

theorem IsAlternatives.readBack_eq {as : List (Alternative String)}
    {cs : List Char} (h : IsAlternatives as cs) :
    ∀ a ∈ as, a.readBack = a := by
  induction h with
  | sequence => exact readBack_of_mem_kept
  | bar _ _ ih => exact List.forall_mem_append.mpr ⟨ih, readBack_of_mem_kept⟩

theorem IsDefinition.readBack_eq {d : Definition} {cs : List Char}
    (h : IsDefinition d cs) : d.readBack = d := by
  cases h with
  | parameter => rfl
  | rule _ _ _ alternatives =>
    rw [Definition.readBack,
      (List.map_congr_left alternatives.readBack_eq).trans (List.map_id _)]

theorem IsGrammarText.readBack_eq {ds : List Definition} {cs : List Char}
    (h : IsGrammarText ds cs) :
    ∀ d ∈ ds, d.readBack = d := by
  induction h with
  | ending => exact List.forall_mem_nil _
  | definition _ isDefinition _ ih =>
    exact List.forall_mem_cons.mpr ⟨isDefinition.readBack_eq, ih⟩

namespace Grammar

variable {g : Grammar}

/-- The alternatives of a grammar that was read are read back as they are. -/
theorem readBack_namedRule? {text : List Char} (read : ofText? text = .ok g)
    (name : String) :
    (g.namedRule? name).map (·.map Alternative.readBack)
      = g.namedRule? name := by
  obtain ⟨ds, isText, distinct, denotes⟩ :=
    ofText?_eq_ok_iff_isGrammarText.mp read
  obtain rfl := denotes.unique (isDenotedBy_ofDefinitions distinct)
  cases rule : (ofDefinitions ds).namedRule? name with
  | none => rfl
  | some as =>
    obtain ⟨start, mem⟩ := (namedRule?_ofDefinitions distinct).mp rule
    have back := isText.readBack_eq _ mem
    rw [Definition.readBack] at back
    exact congrArg some (Definition.rule.inj back).2.2

/-! ## Definitions by name -/

/-- The definitions of a grammar are known by its parameters, its start symbol
and its rules by name, in order. -/
theorem definitions_eq (tidy : g.Tidy) :
    g.definitions = (g.parameters.map fun (key, value) => .parameter key value)
      ++ g.ruleNames.map fun name => .rule name (g.startName? = some name)
      ((g.namedRule? name).getD []) := by
  rw [definitions, ruleNames, Table.keys, List.map_map, List.map_map]
  refine congrArg _ (List.map_congr_left fun rule mem => ?_)
  have known := (tidy.known rule mem).1
  have named : g.namedRule? (g.nameOf rule.1)
      = some (rule.2.map (Token.mapAll g.nameOf)) :=
    (namedRule?_eq_some_iff tidy.distinct tidy.known).mpr
      ⟨_, _, Table.find?_of_mem tidy.ordered.nodup mem, rfl, rfl⟩
  have start : g.start = some rule.1 ↔
      g.startName? = some (g.nameOf rule.1) := by
    rw [startName?, Option.map_eq_some_iff]
    constructor
    · exact fun isStart => ⟨_, isStart, rfl⟩
    · rintro ⟨id, isStart, same⟩
      have ids := congrArg (idIn g.symbols) same
      rw [nameOf, idIn_nameIn tidy.distinct (tidy.start_lt isStart), nameOf,
        idIn_nameIn tidy.distinct known] at ids
      rw [isStart, ids]
  simp only [Function.comp, definitionOf, named, Option.getD_some, start]

/-- The rules of a grammar stand in the order of its symbols. -/
theorem ruleNames_sublist (tidy : g.Tidy) : g.ruleNames.Sublist g.names := by
  have names : g.names = (List.range g.symbols.length).map g.nameOf := by
    refine List.ext_getElem (by simp [Grammar.names]) fun id lt _ => ?_
    rw [List.getElem_map, List.getElem_range, nameOf, nameIn_eq_getD]
    exact (congrArg (Option.getD · "?") (List.getElem?_eq_getElem lt)).symm
  rw [ruleNames, names]
  refine List.Sublist.map g.nameOf ?_
  have subset : Table.keys g.rules
      ⊆ List.range g.symbols.length := fun id mem => by
    obtain ⟨rule, stands, rfl⟩ := List.mem_map.mp mem
    exact List.mem_range.mpr (tidy.known rule stands).1
  exact List.sublist_of_subperm_of_pairwise (List.subperm_of_subset
    tidy.ordered.nodup subset) tidy.ordered List.pairwise_lt_range

/-- A part of a list without repetitions is what stands in the list and in the
part. -/
theorem filter_mem_of_sublist {part all : List String}
    (isPart : part.Sublist all) (distinct : all.Nodup) :
    all.filter (· ∈ part) = part := by
  induction isPart with
  | slnil => rfl
  | @cons part all name isPart ih =>
    rw [List.nodup_cons] at distinct
    have absent : name ∉ part := fun mem => distinct.1 (isPart.subset mem)
    rw [List.filter_cons_of_neg (by simpa using absent), ih distinct.2]
  | @cons_cons part all name isPart ih =>
    rw [List.nodup_cons] at distinct
    rw [List.filter_cons_of_pos (by simp)]
    refine congrArg (name :: ·)
      (Eq.trans (List.filter_congr fun other mem => ?_) (ih distinct.2))
    have differ : other ≠ name := by
      rintro rfl
      exact distinct.1 mem
    simp [differ]

theorem mem_ruleNames_iff (tidy : g.Tidy) {name : String} :
    name ∈ g.ruleNames ↔ ∃ as, g.namedRule? name = some as := by
  rw [← filterMap_ruleName?_definitions, List.mem_filterMap]
  constructor
  · rintro ⟨d, mem, own⟩
    cases d with
    | parameter key value => cases own
    | rule name' start as =>
      obtain rfl := Option.some.inj own
      exact ⟨as, (namedRule?_eq_some_iff_mem tidy).mpr ⟨start, mem⟩⟩
  · rintro ⟨as, rule⟩
    obtain ⟨start, mem⟩ := (namedRule?_eq_some_iff_mem tidy).mp rule
    exact ⟨_, mem, rfl⟩

/-! ## Printing again -/

/-- The names of the rules, in the order in which the text of the grammar
mentions them first. -/
def mentionOrder (g : Grammar) : List String :=
  (g.definitions.flatMap Definition.mentions).eraseDups.filter (· ∈ g.ruleNames)

theorem names_ofDefinitions (ds : List Definition) :
    (ofDefinitions ds).names = (ds.flatMap Definition.mentions).eraseDups := by
  rw [names, namesIn, ofDefinitions, symbols_foldl_define, foldl_internIn_eq]
  simp [Grammar.empty, namesIn, Function.comp_def]

/-- What is read of the text of a tidy grammar. -/
theorem Tidy.ofText?_write_eq (tidy : g.Tidy) :
    ofText? g.write
      = .ok (ofDefinitions (g.definitions.map Definition.readBack)) := by
  rw [ofText?, write, ofText_writeDefinitions (areWritable_definitions tidy)]
  rfl

/-- Grammars with the same text have the same rules in the same order. -/
theorem ruleNames_eq_of_write_eq {h : Grammar} (tidy : g.Tidy) (tidy' : h.Tidy)
    (same : h.write = g.write) :
    h.ruleNames = g.ruleNames := by
  have readBack (d : List Definition) :
      (d.map Definition.readBack).filterMap Definition.ruleName?
        = d.filterMap Definition.ruleName? := by
    rw [List.filterMap_map]
    exact congrArg (d.filterMap ·) (funext Definition.ruleName?_readBack)
  have printed := ofText_writeDefinitions (areWritable_definitions tidy)
  have printed' := ofText_writeDefinitions (areWritable_definitions tidy')
  rw [← write] at printed printed'
  rw [same, printed] at printed'
  have names := congrArg
    (fun r : Reading => r.definitions.filterMap Definition.ruleName?) printed'
  simp only [readBack, filterMap_ruleName?_definitions] at names
  exact names.symm

/-- The rules of what is read back stand in the order in which the text mentions
their names first. -/
theorem ruleNames_reread {h : Grammar} (tidy : g.Tidy)
    (reread : ofText? g.write = .ok h)
    (same : ∀ name, name ∈ h.ruleNames ↔ name ∈ g.ruleNames) :
    h.ruleNames = g.mentionOrder := by
  have names :
      h.names = (g.definitions.flatMap Definition.mentions).eraseDups := by
    obtain rfl := Except.ok.inj (reread.symm.trans tidy.ofText?_write_eq)
    rw [names_ofDefinitions, List.flatMap_map]
    simp only [Definition.mentions_readBack]
  have tidy' : h.Tidy := tidy_of_ofText? reread
  rw [mentionOrder, ← names, ← filter_mem_of_sublist
    (ruleNames_sublist tidy') tidy'.distinct]
  exact List.filter_congr fun name _ => by simp [same]

/-- **Reading back puts rules in the order of their mention.** What is read back
of the text of a grammar that was read has the same definitions, in the order in
which the text mentions their names first, so the text stays the same exactly if
its rules stand in this order. -/
theorem write_reread_eq_iff {text : List Char} (read : ofText? text = .ok g) :
    ∃ h, ofText? g.write = .ok h ∧ h.definitions.Perm g.definitions
      ∧ h.ruleNames = g.mentionOrder
      ∧ (h.write = g.write ↔ g.mentionOrder = g.ruleNames) := by
  have tidy : g.Tidy := tidy_of_ofText? read
  obtain ⟨h, reread, -, parameters, start, rules⟩ := tidy.ofText?_write
  have tidy' : h.Tidy := tidy_of_ofText? reread
  have rules' : h.namedRule? = g.namedRule? :=
    funext fun name => (rules name).trans (readBack_namedRule? read name)
  have same (name : String) : name ∈ h.ruleNames ↔ name ∈ g.ruleNames := by
    rw [mem_ruleNames_iff tidy', mem_ruleNames_iff tidy, rules']
  have order : h.ruleNames = g.mentionOrder := ruleNames_reread tidy reread same
  -- by name both grammars have the same definitions
  have byName : h.definitions = (g.parameters.map fun (key, value) =>
      .parameter key value) ++ h.ruleNames.map fun name => .rule name
      (g.startName? = some name) ((g.namedRule? name).getD []) := by
    rw [definitions_eq tidy', parameters, start, rules']
  refine ⟨h, reread, ?_, order, ?_⟩
  · rw [byName, definitions_eq tidy]
    refine List.Perm.append_left _ (List.Perm.map _ ?_)
    exact (List.perm_ext_iff_of_nodup (nodup_ruleNames tidy')
      (nodup_ruleNames tidy)).mpr same
  · rw [← order]
    constructor
    · exact fun written => ruleNames_eq_of_write_eq tidy tidy' written
    · intro inOrder
      rw [write, write, byName, definitions_eq tidy, inOrder]

/--
`<a> ::= <b> <c> ; <c> ::= <e> ; <b> ::= <d> ; <d> ::= "x" ; <e> ::= "y" ;`. -/
def forwardReferences : List Definition :=
  [.rule "a" false [[.reference "b", .reference "c"]],
    .rule "c" false [[.reference "e"]], .rule "b" false [[.reference "d"]],
    .rule "d" false [[.literal "x"]], .rule "e" false [[.literal "y"]]]

theorem areWritable_forwardReferences : AreWritable [] forwardReferences := by
  simp only [AreWritable, forwardReferences, Definition.IsWritable,
    Definition.ruleName?, IsWritable]
  decide

theorem ofText?_forwardReferences :
    ofText? (writeDefinitions forwardReferences)
      = .ok (ofDefinitions forwardReferences) := by
  rw [ofText?, ofText_writeDefinitions areWritable_forwardReferences]
  rfl

/-- The text of this grammar has the rule of `<e>` before that of `<d>`, but
mentions `<d>` before `<e>`; read again, it is printed the other way round. -/
theorem forwardReferences_reread :
    ofText? (writeDefinitions forwardReferences)
      = .ok (ofDefinitions forwardReferences) ∧
    (ofDefinitions forwardReferences).ruleNames = ["a", "b", "c", "e", "d"] ∧
    ∃ h, ofText? (ofDefinitions forwardReferences).write = .ok h
      ∧ h.ruleNames = ["a", "b", "c", "d", "e"]
      ∧ h.write ≠ (ofDefinitions forwardReferences).write := by
  obtain ⟨h, reread, -, order, fixed⟩ :=
    write_reread_eq_iff ofText?_forwardReferences
  refine ⟨ofText?_forwardReferences, by decide, h, reread, ?_, fun same => ?_⟩
  · rw [order]
    decide
  · have inOrder := fixed.mp same
    revert inOrder
    decide

/-- Not every text that is printed is printed again when it is read. -/
theorem forwardReferences_reordered :
    ¬ ∀ text g, ofText? text = .ok g → ∃ h,
      ofText? g.write = .ok h ∧ h.write = g.write := by
  intro fixed
  obtain ⟨h, reread, same⟩ := fixed _ _ ofText?_forwardReferences
  have tidy := tidy_of_ofText? ofText?_forwardReferences
  obtain rfl := Except.ok.inj (reread.symm.trans tidy.ofText?_write_eq)
  have order := ruleNames_eq_of_write_eq tidy (tidy_of_ofText? reread) same
  revert order
  decide

end Grammar

end Lexigram
