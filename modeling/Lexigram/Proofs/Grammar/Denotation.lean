import Lexigram.Proofs.Grammar.Tidy

/-!
# What the reader accepts

A grammar is read of a text exactly if the text is one of definitions in the
notation, none of which defines a rule again, and the grammar is what they
denote: ids by first mention, the last value of each parameter, and the last
symbol that is marked as the start.
-/

namespace Lexigram

namespace Grammar

/-- Whether a grammar is what definitions denote. -/
structure IsDenotedBy (g : Grammar) (ds : List Definition) : Prop where
  /-- Symbols stand in the order in which they are first mentioned. -/
  symbols : g.symbols = (ds.flatMap Definition.mentions).eraseDups.map
    fun name => ⟨name, false⟩
  rulesOrdered : g.rules.Ordered
  rules : ∀ id alternatives, g.rule? id = some alternatives ↔ ∃ name start as,
    Definition.rule name start as ∈ ds ∧ id = idIn g.symbols name
    ∧ alternatives = as.map (Token.mapAll (idIn g.symbols))
  parametersOrdered : g.parameters.Ordered
  parameters : ∀ key, g.parameter? key
    = (((ds.filterMap Definition.parameter?).filter (·.1 = key)).map
      (·.2)).getLast?
  start : g.start = (ds.filterMap Definition.startName?).getLast?.map
    (idIn g.symbols)

/-- Definitions denote one grammar. -/
theorem IsDenotedBy.unique {g h : Grammar} {ds : List Definition}
    (denotes : g.IsDenotedBy ds) (denotes' : h.IsDenotedBy ds) : g = h := by
  have symbols : g.symbols = h.symbols :=
    denotes.symbols.trans denotes'.symbols.symm
  have rules : g.rules = h.rules := by
    refine Table.ext_of_ordered denotes.rulesOrdered denotes'.rulesOrdered
      fun id => Option.ext fun alternatives => ?_
    exact (denotes.rules id alternatives).trans
      (symbols ▸ (denotes'.rules id alternatives).symm)
  have parameters : g.parameters = h.parameters :=
    Table.ext_of_ordered denotes.parametersOrdered denotes'.parametersOrdered
        fun key =>
      (denotes.parameters key).trans (denotes'.parameters key).symm
  have start : g.start = h.start := by
    rw [denotes.start, denotes'.start, symbols]
  obtain ⟨_, _, _, _⟩ := g
  obtain ⟨_, _, _, _⟩ := h
  simp only at symbols rules parameters start
  rw [symbols, rules, parameters, start]

/-! ## What definitions make -/

/-- Names that are added to symbols come behind them, each where it stands
first. -/
theorem foldl_internIn_eq (names : List String) (symbols : List Symbol) :
    names.foldl internIn symbols
      = symbols ++ (names.filter (· ∉ namesIn symbols)).eraseDups.map
      fun name => ⟨name, false⟩ := by
  induction names generalizing symbols with
  | nil => simp
  | cons name names ih =>
    have known : symbols.any (·.name = name) = true ↔
        name ∈ namesIn symbols := by
      simp [namesIn]
    rw [List.foldl_cons, ih, internIn]
    by_cases mem : name ∈ namesIn symbols
    · rw [if_pos (known.mpr mem), List.filter_cons_of_neg (by simpa using mem)]
    · have grown : namesIn (symbols ++ [⟨name, false⟩])
        = namesIn symbols ++ [name] := List.map_append
      rw [if_neg (mt known.mp mem),
        List.filter_cons_of_pos (by simpa using mem), List.eraseDups_cons,
        List.filter_filter, grown, List.append_assoc]
      refine congrArg (fun l => symbols
        ++ ((⟨name, false⟩ : Symbol) :: List.map _ (List.eraseDups l))) ?_
      refine List.filter_congr fun other _ => ?_
      have same : (other == name) = decide (other = name) := rfl
      simp [and_comm, same]

theorem symbols_define (g : Grammar) (d : Definition) :
    (g.define d).symbols = d.mentions.foldl internIn g.symbols := by
  cases d with
  | parameter key value => rfl
  | rule name start as => cases start <;> rfl

theorem symbols_foldl_define (g : Grammar) (ds : List Definition) :
    (ds.foldl define g).symbols = (ds.flatMap Definition.mentions).foldl
      internIn g.symbols := by
  induction ds generalizing g with
  | nil => rfl
  | cons d ds ih =>
    rw [List.foldl_cons, ih, symbols_define,
      List.flatMap_cons, List.foldl_append]

theorem rulesOrdered_foldl_define {g : Grammar} (ordered : g.rules.Ordered)
    (ds : List Definition) :
    (ds.foldl define g).rules.Ordered := by
  induction ds generalizing g with
  | nil => exact ordered
  | cons d ds ih =>
    refine ih ?_
    rw [rules_define]
    cases d with
    | parameter key value => exact ordered
    | rule name start as => exact ordered.insert _ _

/-- Tokens by id and by name say the same. -/
theorem mapAll_idIn_iff {g : Grammar} (distinct : g.names.Nodup)
    {alternatives : List (Alternative SymbolId)}
    {as : List (Alternative String)} (known : ∀ a ∈ alternatives,
      ∀ target ∈ Token.targets a, target < g.symbols.length)
    (named : ∀ a ∈ as, ∀ name ∈ Token.targets a, name ∈ g.names) :
    alternatives.map (Token.mapAll g.nameOf) = as ↔
      alternatives = as.map (Token.mapAll (idIn g.symbols)) := by
  constructor
  · rintro rfl
    rw [List.map_map]
    refine ((List.map_congr_left fun a chosen => ?_).trans
      (List.map_id alternatives)).symm
    exact Token.mapAll_mapAll_of_inverse fun target stands =>
      idIn_nameIn distinct (known a chosen target stands)
  · rintro rfl
    rw [List.map_map]
    refine (List.map_congr_left fun a chosen => ?_).trans (List.map_id as)
    exact Token.mapAll_mapAll_of_inverse fun name stands =>
      nameIn_idIn (named a chosen name stands)

/-- A name has alternatives if a definition gives it them. -/
theorem namedRule?_ofDefinitions {ds : List Definition}
    (distinct : (ds.filterMap Definition.ruleName?).Nodup) {name : String}
    {as : List (Alternative String)} :
    (ofDefinitions ds).namedRule? name = some as ↔
      ∃ start, .rule name start as ∈ ds := by
  constructor
  · intro named
    by_cases defined : name ∈ ds.filterMap Definition.ruleName?
    · obtain ⟨d, mem, own⟩ := List.mem_filterMap.mp defined
      cases d with
      | parameter key value => cases own
      | rule name' start as' =>
        obtain rfl := Option.some.inj own
        have given :=
          namedRule?_foldl_define_of_mem consistent_empty distinct mem
        obtain rfl := Option.some.inj (named.symm.trans given)
        exact ⟨start, mem⟩
    · have none := namedRule?_foldl_define_of_not_mem consistent_empty defined
      cases named.symm.trans none
  · rintro ⟨start, mem⟩
    exact namedRule?_foldl_define_of_mem consistent_empty distinct mem

/-- The grammar that definitions make is the one they denote. -/
theorem isDenotedBy_ofDefinitions {ds : List Definition}
    (distinct : (ds.filterMap Definition.ruleName?).Nodup) :
    (ofDefinitions ds).IsDenotedBy ds := by
  have consistent : (ofDefinitions ds).Consistent :=
    consistent_empty.foldl_define ds
  have mentioned {d : Definition} (mem : d ∈ ds) {name : String}
    (own : name ∈ d.mentions) :
      name ∈ (ofDefinitions ds).names :=
    mem_names_foldl_define.mpr (.inr ⟨d, mem, own⟩)
  have targets {name : String} {start : Bool} {as : List (Alternative String)}
      (mem : .rule name start as ∈ ds) :
      ∀ a ∈ as, ∀ target ∈ Token.targets a,
        target ∈ (ofDefinitions ds).names := fun a chosen target stands =>
    mentioned (d := .rule name start as) mem
      (List.mem_cons_of_mem _ (List.mem_flatMap.mpr ⟨a, chosen, stands⟩))
  have noRules : Grammar.empty.rules.Ordered := List.Pairwise.nil
  refine ⟨?_, rulesOrdered_foldl_define noRules ds, fun id alternatives => ?_,
    ?_, fun key => ?_, ?_⟩
  · rw [ofDefinitions, symbols_foldl_define, foldl_internIn_eq]
    simp [Grammar.empty, namesIn]
  · constructor
    · intro rule
      obtain ⟨lt, known⟩ := bounds_of_rule? consistent.known rule
      obtain ⟨start, mem⟩ := (namedRule?_ofDefinitions distinct).mp
        ((namedRule?_eq_some_iff consistent.distinct consistent.known).mpr
          ⟨id, _, rule, rfl, rfl⟩)
      exact ⟨_, start, _, mem, (idIn_nameIn consistent.distinct lt).symm,
        (mapAll_idIn_iff consistent.distinct known (targets mem)).mp rfl⟩
    · rintro ⟨name, start, as, mem, rfl, rfl⟩
      obtain ⟨id, alternatives, rule, rfl, written⟩ :=
        (namedRule?_eq_some_iff consistent.distinct consistent.known).mp
          ((namedRule?_ofDefinitions distinct).mpr ⟨start, mem⟩)
      obtain ⟨lt, known⟩ := bounds_of_rule? consistent.known rule
      rw [nameOf, idIn_nameIn consistent.distinct lt, rule,
        (mapAll_idIn_iff consistent.distinct known (targets mem)).mp written]
  · rw [ofDefinitions, parameters_foldl_define]
    exact Table.Ordered.insertAll List.Pairwise.nil
  · rw [parameter?, ofDefinitions,
      parameters_foldl_define, Table.find?_insertAll]
    exact Option.or_none
  · have named : (ofDefinitions ds).startName?
        = (ds.filterMap Definition.startName?).getLast? :=
      (startName?_foldl_define consistent_empty ds).trans Option.or_none
    rw [← named, startName?]
    cases start : (ofDefinitions ds).start with
    | none => rfl
    | some id =>
      exact congrArg some (idIn_nameIn consistent.distinct
        (consistent.start_lt id start)).symm

/-- **What is read is what the notation denotes.** A text is read as a grammar
exactly if it is one of definitions in the notation, none of which defines a
rule again, and they denote the grammar. -/
theorem ofText?_eq_ok_iff_isGrammarText {text : List Char} {g : Grammar} :
    ofText? text = .ok g ↔ ∃ ds, IsGrammarText ds text
      ∧ (ds.filterMap Definition.ruleName?).Nodup
      ∧ g.IsDenotedBy ds := by
  constructor
  · intro read
    obtain ⟨ds, result, rfl⟩ := ofText?_eq_ok_iff_ofDefinitions.mp read
    obtain ⟨isText, distinct⟩ := Reading.ofText_result_eq_ok_iff.mp result
    exact ⟨ds, isText, distinct, isDenotedBy_ofDefinitions distinct⟩
  · rintro ⟨ds, isText, distinct, denotes⟩
    rw [denotes.unique (isDenotedBy_ofDefinitions distinct)]
    exact ofText?_eq_ok_iff_ofDefinitions.mpr
      ⟨ds, Reading.ofText_result_eq_ok_iff.mpr ⟨isText, distinct⟩, rfl⟩

end Grammar

end Lexigram
