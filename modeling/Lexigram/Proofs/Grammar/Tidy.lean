import Lexigram.Proofs.Grammar.Names
import Lexigram.Proofs.Grammar.ReadBack

/-!
Tidy grammars: each symbol has a name of its own and is mentioned by some rule,
the tables are in order, and all that stands in the rules can be written. Every
grammar that is read is tidy, as each definition keeps it so. A tidy grammar can
be written, and its text is read as a grammar with the same names, parameters
and start symbol, and the same rules but for alternatives of one empty literal.
-/

namespace Lexigram

namespace Grammar

/-- The symbols a rule mentions: its own and the targets of its references. -/
def ruleMentions (rule : SymbolId × List (Alternative SymbolId)) :
    List SymbolId :=
  rule.1 :: rule.2.flatMap Token.targets

/-- A rule mentions the ids of the symbols its definition mentions. -/
theorem ruleMentions_mapAll (f : String → SymbolId) (name : String)
    (start : Bool) (as : List (Alternative String)) :
    ruleMentions (f name, as.map (Token.mapAll f))
      = (Definition.rule name start as).mentions.map f := by
  simp only [ruleMentions, Definition.mentions, List.map_cons, List.map_flatMap,
    List.flatMap_map, Token.targets_mapAll]

/-- Whether a grammar is in good order and can be written. -/
structure Tidy (g : Grammar) : Prop where
  distinct : g.names.Nodup
  named : ∀ name ∈ g.names, IsName name
  known : g.WellScoped
  mentioned : ∀ id < g.symbols.length, ∃ rule ∈ g.rules, id ∈ ruleMentions rule
  ordered : g.rules.Ordered
  rules : ∀ rule ∈ g.rules, rule.2 ≠ [] ∧ ∀ a ∈ rule.2, ∀ p ∈ Token.patterns a,
    IsQuotable p.toList
  parametersOrdered : g.parameters.Ordered
  parameters : ∀ entry ∈ g.parameters, IsName entry.1 ∧
    IsQuotable entry.2.toList
  started : ∀ id ∈ g.start, id ∈ Table.keys g.rules

/-- The names that have a rule. -/
def ruleNames (g : Grammar) : List String :=
  (Table.keys g.rules).map g.nameOf

variable {g : Grammar}

theorem Tidy.start_lt (tidy : g.Tidy) {id : SymbolId} (h : id ∈ g.start) :
    id < g.symbols.length := by
  obtain ⟨rule, mem, rfl⟩ := List.mem_map.mp (tidy.started id h)
  exact (tidy.known rule mem).1

theorem tidy_empty : Grammar.empty.Tidy where
  distinct := List.nodup_nil
  named := List.forall_mem_nil _
  known := List.forall_mem_nil _
  mentioned := fun _ lt => absurd lt (Nat.not_lt_zero _)
  ordered := List.Pairwise.nil
  rules := List.forall_mem_nil _
  parametersOrdered := List.Pairwise.nil
  parameters := List.forall_mem_nil _
  started := nofun

/-! ## Definitions keep a grammar tidy -/

theorem isName_of_mem_mentions {d : Definition} (writable : d.IsWritable)
    {name : String} (mem : name ∈ d.mentions) : IsName name := by
  cases d with
  | parameter key value => cases mem
  | rule defined start as =>
    obtain ⟨isName, -, each⟩ := writable
    rcases List.mem_cons.mp mem with rfl | mem
    · exact isName
    · obtain ⟨a, chosen, stands⟩ := List.mem_flatMap.mp mem
      exact (each a chosen).2 name stands

theorem tidy_define_parameter (tidy : g.Tidy) {key value : String}
    (writable : (Definition.parameter key value).IsWritable) :
    (g.define (.parameter key value)).Tidy :=
  { tidy with
    parametersOrdered := tidy.parametersOrdered.insert key value
    parameters := fun entry mem => by
      rcases Table.mem_insert mem with rfl | mem
      · exact writable
      · exact tidy.parameters entry mem }

theorem mem_keys_define_rule {name : String} {start : Bool}
    {as : List (Alternative String)} {id : SymbolId} :
    id ∈ Table.keys (g.define (.rule name start as)).rules
      ↔ id = idIn (g.define (.rule name start as)).symbols name
      ∨ id ∈ Table.keys g.rules := by
  rw [rules_define]
  exact Table.mem_keys_insert

theorem start_define_rule (g : Grammar) (name : String) (start : Bool)
    (as : List (Alternative String)) :
    (g.define (.rule name start as)).start
      = if start then some (idIn (g.define (.rule name start as)).symbols name)
      else g.start := by
  cases start <;> rfl

theorem tidy_define_rule (tidy : g.Tidy)
    {name : String} {start : Bool} {as : List (Alternative String)}
    (writable : (Definition.rule name start as).IsWritable)
    (new : name ∉ g.ruleNames) :
    (g.define (.rule name start as)).Tidy := by
  have ⟨_, nonempty, each⟩ := writable
  have grown := isPrefix_names_define g (.rule name start as)
  have own : (idIn (g.define (.rule name start as)).symbols name,
      as.map (Token.mapAll (idIn (g.define (.rule name start as)).symbols)))
      ∈ (g.define (.rule name start as)).rules := by
    rw [rules_define]
    exact Table.mem_insert_self _ _ _
  -- the rules there were stay, as none of them was that of the name
  have kept : ∀ rule ∈ g.rules, rule
      ∈ (g.define (.rule name start as)).rules := by
    intro rule mem
    rw [rules_define]
    refine Table.mem_insert_of_mem mem fun same =>
      new (List.mem_map.mpr ⟨rule.1, List.mem_map_of_mem mem, ?_⟩)
    have back : (g.define (.rule name start as)).nameOf rule.1
        = g.nameOf rule.1 :=
      nameIn_of_isPrefix grown (tidy.known rule mem).1
    rw [← back, same]
    exact nameIn_idIn (mem_names_define.mpr (.inr List.mem_cons_self))
  exact {
    distinct := nodup_names_define tidy.distinct _
    named := fun name' mem => (mem_names_define.mp mem).elim (tidy.named name')
      (isName_of_mem_mentions writable)
    known := wellScoped_define tidy.known _
    mentioned := fun id lt => by
      have mem : (g.define (.rule name start as)).nameOf id
          ∈ (g.define (.rule name start as)).names :=
        nameIn_mem lt
      have back : idIn (g.define (.rule name start as)).symbols
          ((g.define (.rule name start as)).nameOf id) = id :=
        idIn_nameIn (nodup_names_define tidy.distinct _) lt
      rcases mem_names_define.mp mem with before | added
      · have old : id < g.symbols.length := by
          rw [← back, idIn_of_isPrefix grown before]
          exact idIn_lt before
        obtain ⟨rule, mem, mentions⟩ := tidy.mentioned id old
        exact ⟨rule, kept rule mem, mentions⟩
      · refine ⟨_, own, ?_⟩
        rw [← back, ruleMentions_mapAll]
        exact List.mem_map_of_mem added
    ordered := by
      rw [rules_define]
      exact tidy.ordered.insert _ _
    rules := fun rule mem => by
      rw [rules_define] at mem
      rcases Table.mem_insert mem with rfl | mem
      · refine ⟨by simpa using nonempty, fun a chosen p stands => ?_⟩
        obtain ⟨b, written, rfl⟩ := List.mem_map.mp chosen
        rw [Token.patterns_mapAll] at stands
        exact (each b written).1 p stands
      · exact tidy.rules rule mem
    parametersOrdered := by cases start <;> exact tidy.parametersOrdered
    parameters := by cases start <;> exact tidy.parameters
    started := fun id mem => by
      rw [start_define_rule] at mem
      rw [mem_keys_define_rule]
      split at mem
      · exact .inl (Option.some.inj mem).symm
      · exact .inr (tidy.started id mem) }

/-- A definition adds the name of its rule to those that have one. -/
theorem mem_ruleNames_define (known : g.WellScoped) {d : Definition}
    {name : String} (mem : name ∈ (g.define d).ruleNames) :
    name ∈ d.ruleName?.toList ++ g.ruleNames := by
  cases d with
  | parameter key value => exact mem
  | rule defined start as =>
    obtain ⟨id, has, rfl⟩ := List.mem_map.mp mem
    rcases mem_keys_define_rule.mp has with rfl | has
    · exact List.mem_append_left _ (List.mem_singleton.mpr
        (nameIn_idIn (mem_names_define.mpr (.inr List.mem_cons_self))))
    · obtain ⟨rule, stands, rfl⟩ := List.mem_map.mp has
      have same : (g.define (.rule defined start as)).nameOf rule.1
          = g.nameOf rule.1 :=
        nameIn_of_isPrefix (isPrefix_names_define g _) (known rule stands).1
      rw [same]
      exact List.mem_append_right _ (List.mem_map_of_mem has)

theorem tidy_define (tidy : g.Tidy) {d : Definition} (writable : d.IsWritable)
    (new : ∀ name ∈ d.ruleName?, name ∉ g.ruleNames) : (g.define d).Tidy := by
  cases d with
  | parameter key value => exact tidy_define_parameter tidy writable
  | rule name start as => exact tidy_define_rule tidy writable (new name rfl)

/-- Definitions that can be written one after the other keep a grammar tidy. -/
theorem tidy_foldl_define {ds : List Definition} {defined : List String}
    (tidy : g.Tidy) (subset : ∀ name ∈ g.ruleNames, name ∈ defined)
    (writable : AreWritable defined ds) :
    (ds.foldl define g).Tidy := by
  induction ds generalizing g defined with
  | nil => exact tidy
  | cons d ds ih =>
    obtain ⟨⟨own, new⟩, others⟩ := writable
    refine ih (tidy_define tidy own fun name mem has => new name mem
      (subset name has)) (fun name mem => ?_) others
    rcases List.mem_append.mp (mem_ruleNames_define tidy.known mem) with added
      | before
    · exact List.mem_append_left _ added
    · exact List.mem_append_right _ (subset name before)

/-- Every grammar that is read is tidy. -/
theorem tidy_of_ofText? {text : List Char}
    (read : Grammar.ofText? text = .ok g) : g.Tidy := by
  obtain ⟨ds, result, rfl⟩ := ofText?_eq_ok_iff_ofDefinitions.mp read
  exact tidy_foldl_define tidy_empty (List.forall_mem_nil _)
    (areWritable_of_result result)

/-! ## The definitions of a tidy grammar -/

theorem isWritable_mapAll (tidy : g.Tidy)
    {rule : SymbolId × List (Alternative SymbolId)} (mem : rule ∈ g.rules)
    {a : Alternative SymbolId} (chosen : a ∈ rule.2) :
    IsWritable (Token.mapAll g.nameOf a) := by
  constructor
  · rw [Token.patterns_mapAll]
    exact (tidy.rules rule mem).2 a chosen
  · rw [Token.targets_mapAll]
    intro name written
    obtain ⟨target, stands, rfl⟩ := List.mem_map.mp written
    exact tidy.named _
      (nameIn_mem ((tidy.known rule mem).2 a chosen target stands))

theorem isWritable_definition (tidy : g.Tidy) {d : Definition}
    (mem : d ∈ g.definitions) : d.IsWritable := by
  rcases List.mem_append.mp mem with stands | stands
  · obtain ⟨entry, has, rfl⟩ := List.mem_map.mp stands
    exact tidy.parameters entry has
  · obtain ⟨rule, has, rfl⟩ := List.mem_map.mp stands
    refine ⟨tidy.named _ (nameIn_mem (tidy.known rule has).1),
      by simpa using (tidy.rules rule has).1, ?_⟩
    intro b written
    obtain ⟨a, chosen, rfl⟩ := List.mem_map.mp written
    exact isWritable_mapAll tidy has chosen

theorem filterMap_ruleName?_parameters (g : Grammar) :
    (g.parameters.map fun (key, value) => Definition.parameter
      key value).filterMap Definition.ruleName? = [] := by
  rw [List.filterMap_map]
  exact List.filterMap_eq_nil_iff.mpr fun _ _ => rfl

theorem filterMap_ruleName?_definitions (g : Grammar) :
    g.definitions.filterMap Definition.ruleName? = g.ruleNames := by
  rw [definitions, List.filterMap_append, filterMap_ruleName?_parameters,
    List.nil_append, List.filterMap_map, ruleNames, Table.keys, List.map_map]
  exact congrFun List.filterMap_eq_map g.rules

theorem nodup_ruleNames (tidy : g.Tidy) : g.ruleNames.Nodup := by
  refine tidy.ordered.nodup.map_on fun id mem id' mem' same => ?_
  obtain ⟨rule, stands, rfl⟩ := List.mem_map.mp mem
  obtain ⟨rule', stands', rfl⟩ := List.mem_map.mp mem'
  have back := congrArg (idIn g.symbols) same
  rwa [show idIn g.symbols (g.nameOf rule.1) = rule.1
    from idIn_nameIn tidy.distinct (tidy.known rule stands).1,
    show idIn g.symbols (g.nameOf rule'.1) = rule'.1 from
      idIn_nameIn tidy.distinct (tidy.known rule' stands').1] at back

end Grammar

/-- Definitions can be written one after the other if each can, and the rules
have distinct names. -/
theorem areWritable_of_nodup {known : List String}
    {ds : List Definition} (each : ∀ d ∈ ds, d.IsWritable)
    (distinct : (ds.filterMap Definition.ruleName?).Nodup)
    (new : ∀ name ∈ ds.filterMap Definition.ruleName?, name ∉ known) :
    AreWritable known ds := by
  induction ds generalizing known with
  | nil => trivial
  | cons d ds ih =>
    have named : (d :: ds).filterMap Definition.ruleName?
        = d.ruleName?.toList ++ ds.filterMap Definition.ruleName? := by
      cases d <;> rfl
    rw [named] at distinct new
    obtain ⟨-, distinct, apart⟩ := List.nodup_append.mp distinct
    refine ⟨⟨each d List.mem_cons_self, fun name mem =>
        new name (List.mem_append_left _ (Option.mem_toList.mpr mem))⟩,
      ih (fun d mem => each d (List.mem_cons_of_mem _ mem)) distinct
        fun name mem known => ?_⟩
    rcases List.mem_append.mp known with own | known
    · exact apart name own name mem rfl
    · exact new name (List.mem_append_right _ mem) known

theorem Grammar.areWritable_definitions {g : Grammar} (tidy : g.Tidy) :
    AreWritable [] g.definitions := by
  refine areWritable_of_nodup (fun d mem => isWritable_definition tidy mem) ?_
    (fun _ _ => List.not_mem_nil)
  rw [filterMap_ruleName?_definitions]
  exact nodup_ruleNames tidy

end Lexigram
