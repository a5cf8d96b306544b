import Mathlib.Data.List.Nodup
import Lexigram.Proofs.Grammar.Derivation
import Lexigram.Proofs.Grammar.Leaves
import Lexigram.Proofs.Table

/-!
Grammars by name. A symbol table is a list of distinct names that only grows at
its end, so an id keeps its name and a name its id. What a definition adds to a
grammar is said here without ids: its names, its rule, its parameter and its
start symbol.
-/

namespace Lexigram

/-! ## Symbol tables -/

/-- The names in a symbol table, by id. -/
def namesIn (symbols : List Symbol) : List String :=
  symbols.map (·.name)

section Symbols

variable {symbols later : List Symbol} {name : String} {id : SymbolId}

@[simp] theorem length_namesIn (symbols : List Symbol) :
    (namesIn symbols).length = symbols.length :=
  List.length_map _

theorem idIn_eq_idxOf (symbols : List Symbol) (name : String) :
    idIn symbols name = (namesIn symbols).idxOf name := by
  induction symbols with
  | nil => rfl
  | cons symbol symbols ih =>
    rw [idIn] at ih ⊢
    rw [namesIn] at ih ⊢
    by_cases same : symbol.name = name <;> simp [List.findIdx_cons, same, ih]

theorem nameIn_eq_getD (symbols : List Symbol) (id : SymbolId) :
    nameIn symbols id = (namesIn symbols)[id]?.getD "?" := by
  rw [nameIn, namesIn, List.getElem?_map]
  cases symbols[id]? <;> rfl

theorem idIn_lt (mem : name ∈ namesIn symbols) :
    idIn symbols name < symbols.length := by
  rw [idIn_eq_idxOf, ← length_namesIn]
  exact List.idxOf_lt_length_of_mem mem

theorem nameIn_mem (lt : id < symbols.length) :
    nameIn symbols id ∈ namesIn symbols := by
  have lt' : id < (namesIn symbols).length := by rwa [length_namesIn]
  rw [nameIn_eq_getD, List.getElem?_eq_getElem lt']
  exact List.getElem_mem lt'

theorem nameIn_idIn (mem : name ∈ namesIn symbols) :
    nameIn symbols (idIn symbols name) = name := by
  have lt := List.idxOf_lt_length_of_mem mem
  rw [nameIn_eq_getD, idIn_eq_idxOf, List.getElem?_eq_getElem lt]
  exact List.getElem_idxOf lt

theorem idIn_nameIn (distinct : (namesIn symbols).Nodup)
    (lt : id < symbols.length) :
    idIn symbols (nameIn symbols id) = id := by
  have lt' : id < (namesIn symbols).length := by rwa [length_namesIn]
  rw [nameIn_eq_getD, idIn_eq_idxOf, List.getElem?_eq_getElem lt']
  exact distinct.idxOf_getElem id lt'

/-- Names that were there keep their ids when others are put behind them. -/
theorem idIn_of_isPrefix (grown : namesIn symbols <+: namesIn later)
    (mem : name ∈ namesIn symbols) :
    idIn later name = idIn symbols name := by
  obtain ⟨new, eq⟩ := grown
  rw [idIn_eq_idxOf, idIn_eq_idxOf, ← eq, List.idxOf_append_of_mem mem]

theorem nameIn_of_isPrefix (grown : namesIn symbols <+: namesIn later)
    (lt : id < symbols.length) :
    nameIn later id = nameIn symbols id := by
  obtain ⟨new, eq⟩ := grown
  rw [nameIn_eq_getD, nameIn_eq_getD, ← eq,
    List.getElem?_append_left (by rwa [length_namesIn])]

theorem length_le_of_isPrefix (grown : namesIn symbols <+: namesIn later) :
    symbols.length ≤ later.length := by
  simpa using grown.length_le

theorem namesIn_internIn (symbols : List Symbol) (name : String) :
    namesIn (internIn symbols name)
      = if name ∈ namesIn symbols then namesIn symbols
      else namesIn symbols ++ [name] := by
  have known : symbols.any (·.name = name) = true ↔ name ∈ namesIn symbols := by
    simp [namesIn]
  rw [internIn]
  split
  · next yes => rw [if_pos (known.mp yes)]
  · next no => rw [if_neg (mt known.mpr no), namesIn, List.map_append]; rfl

/-- What comes of a symbol table when names are added to it. -/
theorem foldl_internIn (names : List String) (symbols : List Symbol) :
    namesIn symbols <+: namesIn (names.foldl internIn symbols)
      ∧ ((namesIn symbols).Nodup →
        (namesIn (names.foldl internIn symbols)).Nodup)
      ∧ ∀ name, name ∈ namesIn (names.foldl internIn symbols)
      ↔ name ∈ namesIn symbols ∨ name ∈ names := by
  induction names generalizing symbols with
  | nil => exact ⟨List.prefix_rfl, id, fun name => by simp⟩
  | cons added names ih =>
    obtain ⟨grown, distinct, mem⟩ := ih (internIn symbols added)
    rw [namesIn_internIn] at grown distinct
    simp only [namesIn_internIn] at mem
    rw [List.foldl_cons]
    split at grown
    · next known =>
      rw [if_pos known] at distinct
      simp only [if_pos known] at mem
      refine ⟨grown, distinct, fun name => ?_⟩
      rw [mem, List.mem_cons]
      constructor
      · rintro (h | h)
        · exact .inl h
        · exact .inr (.inr h)
      · rintro (h | rfl | h)
        · exact .inl h
        · exact .inl known
        · exact .inr h
    · next new =>
      rw [if_neg new] at distinct
      simp only [if_neg new] at mem
      refine ⟨(List.prefix_append _ _).trans grown, fun before => ?_,
        fun name => ?_⟩
      · exact distinct (List.nodup_append.mpr ⟨before, by simp, by
          rintro a old b single rfl
          exact new (List.mem_singleton.mp single ▸ old)⟩)
      · rw [mem, List.mem_append, List.mem_singleton, List.mem_cons, or_assoc]

end Symbols

/-! ## What a definition adds -/

/-- The parameter that a definition sets. -/
def Definition.parameter? : Definition → Option (String × String)
  | .parameter key value => some (key, value)
  | .rule _ _ _ => none

/-- The start symbol that a definition names. -/
def Definition.startName? : Definition → Option String
  | .rule name true _ => some name
  | _ => none

namespace Grammar

/-- The names of all symbols, by id. -/
def names (g : Grammar) : List String :=
  namesIn g.symbols

/-- The alternatives of the rule of a name, with names for references. -/
def namedRule? (g : Grammar) (name : String) :
    Option (List (Alternative String)) :=
  (g.id? name).bind fun id => (g.rule? id).map (·.map (Token.mapAll g.nameOf))

/-- The name of the start symbol. -/
def startName? (g : Grammar) : Option String :=
  g.start.map g.nameOf

theorem id?_eq (g : Grammar) (name : String) :
    g.id? name = if name ∈ g.names then some (idIn g.symbols name)
      else none := by
  have known : (∃ symbol ∈ g.symbols, symbol.name = name) ↔ name ∈ g.names := by
    simp [names, namesIn]
  unfold id? idIn
  split
  · next mem =>
    rw [List.findIdx?_eq_some_iff_findIdx_eq]
    obtain ⟨symbol, mem, eq⟩ := known.mpr mem
    exact ⟨List.findIdx_lt_length.mpr ⟨symbol, mem, by simpa using eq⟩, rfl⟩
  · next absent =>
    rw [List.findIdx?_eq_none_iff]
    intro symbol mem
    simpa using fun eq => absent (known.mp ⟨symbol, mem, eq⟩)

variable {g : Grammar}

theorem bounds_of_rule? (known : g.WellScoped) {id : SymbolId}
    {as : List (Alternative SymbolId)} (rule : g.rule? id = some as) :
    id < g.symbols.length ∧ ∀ a ∈ as, ∀ target ∈ Token.targets a,
      target < g.symbols.length :=
  known (id, as) (Table.mem_of_find? rule)

/-- A name has the alternatives that its rule has, if its symbol has one. -/
theorem namedRule?_eq_some_iff (distinct : g.names.Nodup) (known : g.WellScoped)
    {name : String} {as : List (Alternative String)} :
    g.namedRule? name = some as ↔
      ∃ id alternatives, g.rule? id = some alternatives ∧ g.nameOf id = name
        ∧ alternatives.map (Token.mapAll g.nameOf) = as := by
  rw [namedRule?, id?_eq]
  constructor
  · intro h
    split at h
    · next mem =>
      obtain ⟨alternatives, rule, eq⟩ := Option.map_eq_some_iff.mp h
      exact ⟨_, alternatives, rule, nameIn_idIn mem, eq⟩
    · cases h
  · rintro ⟨id, alternatives, rule, rfl, rfl⟩
    have lt := (bounds_of_rule? known rule).1
    have mem : g.nameOf id ∈ g.names := nameIn_mem lt
    have back : idIn g.symbols (g.nameOf id) = id := idIn_nameIn distinct lt
    rw [if_pos mem, back, Option.bind_some, rule]
    rfl

theorem names_define (g : Grammar) (d : Definition) :
    (g.define d).names = namesIn (d.mentions.foldl internIn g.symbols) := by
  cases d with
  | parameter key value => rfl
  | rule name start as => cases start <;> rfl

/-- The ids that are known keep their names. -/
theorem isPrefix_names_define (g : Grammar) (d : Definition) :
    g.names <+: (g.define d).names := by
  rw [names_define]
  exact (foldl_internIn d.mentions g.symbols).1

theorem nodup_names_define (distinct : g.names.Nodup) (d : Definition) :
    (g.define d).names.Nodup := by
  rw [names_define]
  exact (foldl_internIn d.mentions g.symbols).2.1 distinct

theorem mem_names_define {d : Definition} {name : String} :
    name ∈ (g.define d).names ↔ name ∈ g.names ∨ name ∈ d.mentions := by
  rw [names_define]
  exact (foldl_internIn d.mentions g.symbols).2.2 name

/-- The rule table behind a definition. -/
theorem rules_define (g : Grammar) (d : Definition) :
    (g.define d).rules = match d with
      | .parameter _ _ => g.rules
      | .rule name _ as => g.rules.insert (idIn (g.define d).symbols name)
          (as.map (Token.mapAll (idIn (g.define d).symbols))) := by
  cases d with
  | parameter key value => rfl
  | rule name start as => cases start <;> rfl

/-- Only symbols that have a name get ids. -/
theorem wellScoped_define (known : g.WellScoped) (d : Definition) :
    (g.define d).WellScoped := by
  have grown : g.symbols.length ≤ (g.define d).symbols.length :=
    length_le_of_isPrefix (isPrefix_names_define g d)
  have before : ∀ rule ∈ g.rules, rule.1 < (g.define d).symbols.length ∧
      ∀ a ∈ rule.2, ∀ target ∈ Token.targets a,
      target < (g.define d).symbols.length := fun rule mem =>
    ⟨Nat.lt_of_lt_of_le (known rule mem).1 grown, fun a chosen target stands =>
      Nat.lt_of_lt_of_le ((known rule mem).2 a chosen target stands) grown⟩
  intro rule mem
  rw [rules_define] at mem
  cases d with
  | parameter key value => exact before rule mem
  | rule name start as =>
    rcases Table.mem_insert mem with rfl | mem
    · have mentioned : ∀ name' ∈ (Definition.rule name start as).mentions,
          idIn (g.define (.rule name start as)).symbols name'
          < (g.define (.rule name start as)).symbols.length :=
        fun name' mem => idIn_lt (mem_names_define.mpr (.inr mem))
      refine ⟨mentioned name List.mem_cons_self,
        fun a chosen target stands => ?_⟩
      obtain ⟨b, written, rfl⟩ := List.mem_map.mp chosen
      rw [Token.targets_mapAll] at stands
      obtain ⟨name', names, rfl⟩ := List.mem_map.mp stands
      exact mentioned name' (List.mem_cons_of_mem _
        (List.mem_flatMap.mpr ⟨b, written, names⟩))
    · exact before rule mem

theorem rule?_define_rule (g : Grammar) (name : String) (start : Bool)
    (as : List (Alternative String)) (id : SymbolId) :
    (g.define (.rule name start as)).rule? id
      = if id = idIn (g.define (.rule name start as)).symbols name
        then some (as.map
          (Token.mapAll (idIn (g.define (.rule name start as)).symbols)))
        else g.rule? id := by
  rw [rule?, rules_define]
  exact Table.find?_insert _ _ _ _

/-- What alternatives say does not change when symbols are added. -/
theorem mapAll_nameOf_define (known : g.WellScoped)
    (d : Definition) {id : SymbolId} {as : List (Alternative SymbolId)}
    (rule : g.rule? id = some as) :
    as.map (Token.mapAll (g.define d).nameOf)
      = as.map (Token.mapAll g.nameOf) := by
  refine List.map_congr_left fun a chosen =>
    Token.mapAll_congr fun target stands => ?_
  exact nameIn_of_isPrefix (isPrefix_names_define g d)
    ((bounds_of_rule? known rule).2 a chosen target stands)

/-- A definition gives its name the alternatives it has, and every other name
keeps those it had. -/
theorem namedRule?_define_rule (distinct : g.names.Nodup) (known : g.WellScoped)
    (defined : String) (start : Bool) (as : List (Alternative String))
    (name : String) :
    (g.define (.rule defined start as)).namedRule? name
      = if name = defined then some as else g.namedRule? name := by
  have grown := isPrefix_names_define g (.rule defined start as)
  have distinct' := nodup_names_define distinct (.rule defined start as)
  have known' := wellScoped_define known (.rule defined start as)
  have mentioned : ∀ name ∈ (Definition.rule defined start as).mentions,
      (g.define (.rule defined start as)).nameOf
      (idIn (g.define (.rule defined start as)).symbols name) = name :=
    fun name mem => nameIn_idIn (mem_names_define.mpr (.inr mem))
  have own : (as.map
      (Token.mapAll (idIn (g.define (.rule defined start as)).symbols))).map
      (Token.mapAll (g.define (.rule defined start as)).nameOf) = as := by
    rw [List.map_map]
    refine (List.map_congr_left fun a chosen => ?_).trans (List.map_id as)
    exact Token.mapAll_mapAll_of_inverse fun target stands =>
      mentioned target (List.mem_cons_of_mem _
        (List.mem_flatMap.mpr ⟨a, chosen, stands⟩))
  -- the rules of the grammar are those before, with the defined one in front
  refine Option.ext fun alternatives => ?_
  rw [namedRule?_eq_some_iff distinct' known']
  constructor
  · rintro ⟨id, rule, found, rfl, rfl⟩
    rw [rule?_define_rule] at found
    split at found
    · next same =>
      obtain rfl := Option.some.inj found
      rw [same, mentioned defined List.mem_cons_self, if_pos rfl, own]
    · next differ =>
      have lt := (bounds_of_rule? known found).1
      have name : (g.define (.rule defined start as)).nameOf id = g.nameOf id :=
        nameIn_of_isPrefix grown lt
      have back : idIn (g.define (.rule defined start as)).symbols
          ((g.define (.rule defined start as)).nameOf id) = id :=
        idIn_nameIn distinct' (Nat.lt_of_lt_of_le lt
          (length_le_of_isPrefix grown))
      have other : (g.define (.rule defined start as)).nameOf id
          ≠ defined := fun same =>
        differ (back.symm.trans (congrArg _ same))
      rw [if_neg other, name, mapAll_nameOf_define known _ found]
      exact (namedRule?_eq_some_iff distinct known).mpr
        ⟨id, rule, found, rfl, rfl⟩
  · intro found
    split at found
    · next same =>
      obtain rfl := Option.some.inj found
      refine ⟨_, _, ?_, (mentioned defined List.mem_cons_self).trans
        same.symm, own⟩
      rw [rule?_define_rule, if_pos rfl]
    · next other =>
      obtain ⟨id, alternatives, rule, rfl, rfl⟩ :=
        (namedRule?_eq_some_iff distinct known).mp found
      have lt := (bounds_of_rule? known rule).1
      have name : (g.define (.rule defined start as)).nameOf id = g.nameOf id :=
        nameIn_of_isPrefix grown lt
      refine ⟨id, alternatives, ?_, name, mapAll_nameOf_define known _ rule⟩
      rw [rule?_define_rule, if_neg, rule]
      rintro rfl
      exact other (name.symm.trans (mentioned defined List.mem_cons_self))

/-- Whether names and ids go together: each name has one id, and only symbols of
the table are referred to. -/
structure Consistent (g : Grammar) : Prop where
  distinct : g.names.Nodup
  known : g.WellScoped
  start_lt : ∀ id ∈ g.start, id < g.symbols.length

theorem consistent_empty : Grammar.empty.Consistent :=
  ⟨List.nodup_nil, List.forall_mem_nil _, nofun⟩

theorem Consistent.define (h : g.Consistent) (d : Definition) :
    (g.define d).Consistent where
  distinct := nodup_names_define h.distinct d
  known := wellScoped_define h.known d
  start_lt := by
    have grown : g.symbols.length ≤ (g.define d).symbols.length :=
      length_le_of_isPrefix (isPrefix_names_define g d)
    have kept : ∀ id ∈ g.start, id
        < (g.define d).symbols.length := fun id mem =>
      Nat.lt_of_lt_of_le (h.start_lt id mem) grown
    cases d with
    | parameter key value => exact kept
    | rule name start as =>
      cases start with
      | false => exact kept
      | true =>
        rintro id ⟨⟩
        have mem : name ∈ (g.define (.rule name true as)).names :=
          mem_names_define.mpr (.inr List.mem_cons_self)
        exact idIn_lt mem

/-- A definition that is marked names the start symbol. -/
theorem startName?_define (consistent : g.Consistent) (d : Definition) :
    (g.define d).startName? = d.startName?.or g.startName? := by
  have kept : g.start.map (g.define d).nameOf = g.startName? := by
    rw [startName?]
    cases eq : g.start with
    | none => rfl
    | some id =>
      exact congrArg some (nameIn_of_isPrefix (isPrefix_names_define g d)
        (consistent.start_lt id eq))
  cases d with
  | parameter key value => rfl
  | rule name start as =>
    cases start with
    | false => exact kept
    | true =>
      have mem : name ∈ (g.define (.rule name true as)).names :=
        mem_names_define.mpr (.inr List.mem_cons_self)
      exact congrArg some (nameIn_idIn mem)

/-! ## What definitions make -/

section Definitions

variable {ds : List Definition}

theorem Consistent.foldl_define (h : g.Consistent) (ds : List Definition) :
    (ds.foldl Grammar.define g).Consistent := by
  induction ds generalizing g with
  | nil => exact h
  | cons d ds ih => exact ih (h.define d)

theorem mem_names_foldl_define {name : String} :
    name ∈ (ds.foldl define g).names ↔ name ∈ g.names ∨ ∃ d ∈ ds,
      name ∈ d.mentions := by
  induction ds generalizing g with
  | nil => simp
  | cons d ds ih =>
    rw [List.foldl_cons, ih, mem_names_define, or_assoc]
    simp

/-- A name that is not defined keeps the rule it has. -/
theorem namedRule?_foldl_define_of_not_mem (consistent : g.Consistent)
    {name : String} (absent : name ∉ ds.filterMap Definition.ruleName?) :
    (ds.foldl define g).namedRule? name = g.namedRule? name := by
  induction ds generalizing g with
  | nil => rfl
  | cons d ds ih =>
    rw [List.foldl_cons]
    cases d with
    | parameter key value =>
      rw [ih (consistent.define _)
        (by simpa [Definition.ruleName?] using absent)]
      rfl
    | rule defined start as =>
      simp only [List.filterMap_cons, Definition.ruleName?,
        List.mem_cons, not_or] at absent
      rw [ih (consistent.define _) absent.2, namedRule?_define_rule
        consistent.distinct consistent.known, if_neg absent.1]

/-- A name that is defined once has the alternatives of its definition. -/
theorem namedRule?_foldl_define_of_mem (consistent : g.Consistent)
    (distinct : (ds.filterMap Definition.ruleName?).Nodup)
    {name : String} {start : Bool} {as : List (Alternative String)}
    (mem : .rule name start as ∈ ds) :
    (ds.foldl define g).namedRule? name = some as := by
  induction ds generalizing g with
  | nil => cases mem
  | cons d ds ih =>
    rw [List.foldl_cons]
    rcases List.mem_cons.mp mem with rfl | later
    · -- what comes later defines other names
      have absent : name ∉ ds.filterMap Definition.ruleName? := by
        simp only [List.filterMap_cons, Definition.ruleName?, List.nodup_cons]
          at distinct
        exact distinct.1
      rw [namedRule?_foldl_define_of_not_mem (consistent.define _) absent,
        namedRule?_define_rule consistent.distinct consistent.known, if_pos rfl]
    · refine ih (consistent.define d) ?_ later
      exact distinct.sublist ((List.sublist_cons_self d ds).filterMap _)

/-- The parameters of definitions are put in one after the other. -/
theorem parameters_foldl_define (g : Grammar) (ds : List Definition) :
    (ds.foldl define g).parameters
      = g.parameters.insertAll (ds.filterMap Definition.parameter?) := by
  induction ds generalizing g with
  | nil => rfl
  | cons d ds ih =>
    rw [List.foldl_cons, ih]
    cases d with
    | parameter key value => rfl
    | rule name start as => cases start <;> rfl

/-- The start symbol is the one that definitions name last. -/
theorem startName?_foldl_define (consistent : g.Consistent)
    (ds : List Definition) :
    (ds.foldl define g).startName?
      = (ds.filterMap Definition.startName?).getLast?.or g.startName? := by
  induction ds generalizing g with
  | nil => rfl
  | cons d ds ih =>
    rw [List.foldl_cons, ih (consistent.define d), startName?_define consistent]
    cases own : d.startName? with
    | none => rw [List.filterMap_cons_none own, Option.none_or]
    | some name =>
      rw [List.filterMap_cons_some own, List.getLast?_cons]
      cases (ds.filterMap Definition.startName?).getLast? <;> rfl

end Definitions

end Grammar

end Lexigram
