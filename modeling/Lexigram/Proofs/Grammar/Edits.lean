import Mathlib.Logic.Function.Basic
import Mathlib.Order.Bounds.Defs
import Lexigram.Proofs.Grammar.Drafts

/-!
Histories of a grammar. Whatever operations have made a grammar from the empty
one, no two of its symbols have the same name, and its tables are in order
(`Grammar.inOrder_edited`): each operation keeps that so. Thus names and ids go
together, and the operations on rules and parameters are those on finite maps
(`Grammar.edited_tables`). The names that are made up on the way are the first
free ones (`freeName_isLeast`).
-/

namespace Lexigram

/-! ## Free names -/

theorem freeNumber_le (symbols : List Symbol) (tries n : Nat) :
    freeNumber symbols tries n ≤ n + tries := by
  induction tries generalizing n with
  | zero => exact Nat.le_refl n
  | succ tries ih =>
    rw [freeNumber]
    split
    · exact (ih (n + 1)).trans (by omega)
    · exact Nat.le_add_right _ _

/-- The search for a free name, from the size of the symbol table on, ends at
the first number whose name is free. -/
theorem freeName_isLeast (symbols : List Symbol) :
    ∃ n, freeName symbols = syntheticName n ∧
      n ≤ symbols.length + symbols.length ∧ IsLeast
      {k | symbols.length ≤ k ∧ syntheticName k ∉ namesIn symbols} n := by
  obtain ⟨above, skipped, -⟩ :=
    freeNumber_spec symbols symbols.length symbols.length
  refine ⟨_, rfl, freeNumber_le symbols symbols.length symbols.length,
    ⟨above, freeName_not_mem symbols⟩, ?_⟩
  rintro k ⟨ge, free⟩
  by_contra lt
  exact free (skipped k ge (Nat.lt_of_not_le lt))

/-! ## Operations -/

/-- An operation on a grammar. -/
inductive Edit where
  /-- Reads a text as a grammar, which takes the place of the one there. -/
  | read (text : List Char)
  | intern (name : String)
  | setRule (id : SymbolId) (alternatives : List (Alternative SymbolId))
  | removeRule (id : SymbolId)
  /-- Adds an alternative to a rule that is there. -/
  | addAlternative (id : SymbolId) (a : Alternative SymbolId)
  | setStart (id : SymbolId)
  | setParameter (key value : String)
  | removeParameter (key : String)
  | makePlain (recursion : Recursion)
  deriving Repr, DecidableEq

/-- What an operation gives back. -/
inductive EditAnswer where
  | done
  | unreadable (e : ReadError)
  | malformed (fault : GrammarFault)
  | symbol (id : SymbolId)
  /-- The rule that was there before. -/
  | rule (before : Option (List (Alternative SymbolId)))
  /-- The parameter that was there before. -/
  | parameter (before : Option String)
  deriving Repr, DecidableEq

/-- An operation on a grammar: what it gives back and the grammar it leaves. -/
def Edit.run (g : Grammar) : Edit → EditAnswer × Grammar
  | .read text =>
    match Grammar.ofText? text with
    | .ok fromText => (.done, fromText)
    | .error e => (.unreadable e, g)
  | .intern name => (.symbol (g.intern name).2, (g.intern name).1)
  | .setRule id alternatives => (.rule (g.rule? id), g.setRule id alternatives)
  | .removeRule id => (.rule (g.rule? id), g.removeRule id)
  | .addAlternative id a => (.rule (g.rule? id), g.addAlternative id a)
  | .setStart id => (.done, g.setStart id)
  | .setParameter key value =>
    (.parameter (g.parameter? key), g.setParameter key value)
  | .removeParameter key =>
    (.parameter (g.parameter? key), g.removeParameter key)
  | .makePlain recursion =>
    match Grammar.makePlain recursion g with
    | .ok _ plain => (.done, plain)
    | .error fault kept => (.malformed fault, kept)

theorem idIn_internIn (symbols : List Symbol) (name : String) :
    idIn (internIn symbols name) name = idIn symbols name := by
  rw [idIn_eq_idxOf, idIn_eq_idxOf, namesIn_internIn]
  split
  · rfl
  · next new => simp [List.idxOf_append, new]

namespace Grammar

/-- The grammar that operations make of the empty one, one after the other. -/
def edited (edits : List Edit) : Grammar :=
  edits.foldl (fun g edit => (edit.run g).2) empty

/-! ## What operations keep -/

/-- Whether the names of the symbols are distinct and the tables in order. -/
structure InOrder (g : Grammar) : Prop where
  distinct : g.names.Nodup
  rules : g.rules.Ordered
  parameters : g.parameters.Ordered

variable {g h : Grammar}

theorem Tidy.inOrder (tidy : g.Tidy) : g.InOrder :=
  ⟨tidy.distinct, tidy.ordered, tidy.parametersOrdered⟩

theorem nodup_names_intern (distinct : g.names.Nodup) (name : String) :
    (g.intern name).1.names.Nodup := by
  rw [names, intern, namesIn_internIn]
  split
  · exact distinct
  · next new =>
      exact List.nodup_append.mpr ⟨distinct, List.nodup_singleton _, by grind⟩

theorem InOrder.addAlternative (order : g.InOrder) (id : SymbolId)
    (a : Alternative SymbolId) :
    (g.addAlternative id a).InOrder := by
  unfold Grammar.addAlternative
  split
  · exact { order with rules := order.rules.insert _ _ }
  · exact order

theorem InOrder.plain (order : g.InOrder) {recursion : Recursion}
    (made : g.plain recursion = .ok h) :
    h.InOrder := by
  obtain ⟨bound, flat, created, drafted⟩ := exists_drafted made
  refine ⟨drafted.nodup_names order.distinct, drafted.ordered order.rules, ?_⟩
  rw [drafted.eq]
  exact order.parameters

/-- Every operation keeps a grammar in order. -/
theorem InOrder.run (order : g.InOrder) (edit : Edit) :
    (edit.run g).2.InOrder := by
  cases edit with
  | read text =>
    rw [Edit.run]
    split
    · next read => exact (tidy_of_ofText? read).inOrder
    · exact order
  | intern name =>
    exact { order with distinct := nodup_names_intern order.distinct name }
  | setRule id alternatives =>
    exact { order with rules := order.rules.insert id alternatives }
  | removeRule id => exact { order with rules := order.rules.erase id }
  | addAlternative id a => exact order.addAlternative id a
  | setStart id => exact { order with }
  | setParameter key value =>
    exact { order with parameters := order.parameters.insert key value }
  | removeParameter key =>
    exact { order with parameters := order.parameters.erase key }
  | makePlain recursion =>
    rw [Edit.run, Grammar.makePlain]
    cases made : g.plain recursion with
    | ok h => exact order.plain made
    | error fault => exact order

/-- Every history leaves a grammar in order. -/
theorem inOrder_edited (edits : List Edit) : (edited edits).InOrder := by
  suffices ∀ g : Grammar, g.InOrder →
    (edits.foldl (fun g edit => (edit.run g).2) g).InOrder
    from this empty tidy_empty.inOrder
  induction edits with
  | nil => exact fun g order => order
  | cons edit edits ih => exact fun g order => ih _ (order.run edit)

/-! ## Tables as maps -/

/-- The id of a name is the place of the symbol with this name. -/
theorem InOrder.id?_eq_some_iff (order : g.InOrder) {name : String}
    {id : SymbolId} :
    g.id? name = some id ↔ ∃ symbol,
      g.symbol? id = some symbol ∧ symbol.name = name := by
  rw [id?, List.findIdx?_eq_some_iff_getElem]
  constructor
  · rintro ⟨lt, same, -⟩
    exact ⟨g.symbols[id], List.getElem?_eq_getElem lt, of_decide_eq_true same⟩
  · rintro ⟨symbol, there, rfl⟩
    obtain ⟨lt, rfl⟩ := List.getElem?_eq_some_iff.mp there
    refine ⟨lt, decide_eq_true rfl, fun j before same => ?_⟩
    have distinct := List.pairwise_iff_getElem.mp order.distinct j id
      (by simpa [names] using Nat.lt_trans before lt)
      (by simpa [names] using lt) before
    exact distinct (by simpa [names, namesIn] using same)

theorem rule?_setRule (g : Grammar) (id : SymbolId)
    (as : List (Alternative SymbolId)) :
    (g.setRule id as).rule? = Function.update g.rule? id (some as) := by
  funext j
  rw [Function.update_apply]
  exact Table.find?_insert _ _ _ _

theorem InOrder.rule?_removeRule (order : g.InOrder) (id : SymbolId) :
    (g.removeRule id).rule? = Function.update g.rule? id none := by
  funext j
  rw [Function.update_apply]
  exact Table.find?_erase order.rules.nodup _ _

theorem rule?_addAlternative (g : Grammar) (id : SymbolId)
    (a : Alternative SymbolId) :
    (g.addAlternative id a).rule? = Function.update g.rule? id
      ((g.rule? id).map (· ++ [a])) := by
  unfold addAlternative
  split
  · next as there => rw [rule?_setRule, there, Option.map_some]
  · next absent =>
      rw [absent, Option.map_none, ← absent, Function.update_eq_self]

theorem parameter?_setParameter (g : Grammar) (key value : String) :
    (g.setParameter key value).parameter? = Function.update g.parameter? key
      (some value) := by
  funext k
  rw [Function.update_apply]
  exact Table.find?_insert _ _ _ _

theorem InOrder.parameter?_removeParameter (order : g.InOrder) (key : String) :
    (g.removeParameter key).parameter?
      = Function.update g.parameter? key none := by
  funext k
  rw [Function.update_apply]
  exact Table.find?_erase order.parameters.nodup _ _

theorem id?_intern (g : Grammar) (name : String) :
    (g.intern name).1.id? name = some (g.intern name).2 := by
  have known : name ∈ (g.intern name).1.names := by
    rw [names, intern, namesIn_internIn]
    split
    · assumption
    · exact List.mem_append_right _ (List.mem_singleton_self name)
  rw [id?_eq, if_pos known]
  exact congrArg some (idIn_internIn g.symbols name)

/-- Whether the tables of a grammar are maps: of names to ids and back, of ids
to rules and of keys to parameters. Operations look up, put in and take out, and
give back what was there. -/
structure IsMaps (g : Grammar) : Prop where
  distinct : g.names.Nodup
  id_of_symbol : ∀ id symbol, g.symbol? id = some symbol →
    g.id? symbol.name = some id
  symbol_of_id : ∀ name id, g.id? name = some id → ∃ symbol,
    g.symbol? id = some symbol ∧ symbol.name = name
  intern : ∀ name, ∃ id, ((Edit.intern name).run g).1 = .symbol id ∧
    ((Edit.intern name).run g).2.id? name = some id
  ascending : g.rules.keys.Pairwise (· < ·)
  mem_rules : ∀ id as, (id, as) ∈ g.rules ↔ g.rule? id = some as
  setRule : ∀ id as, ((Edit.setRule id as).run g).1 = .rule (g.rule? id) ∧
    ((Edit.setRule id as).run g).2.rule? = Function.update g.rule? id (some as)
  removeRule : ∀ id, ((Edit.removeRule id).run g).1 = .rule (g.rule? id) ∧
    ((Edit.removeRule id).run g).2.rule? = Function.update g.rule? id none
  addAlternative : ∀ id a, ((Edit.addAlternative id a).run g).1
    = .rule (g.rule? id) ∧
    ((Edit.addAlternative id a).run g).2.rule?
    = Function.update g.rule? id ((g.rule? id).map (· ++ [a]))
  setParameter : ∀ key value, ((Edit.setParameter key value).run g).1
    = .parameter (g.parameter? key) ∧
    ((Edit.setParameter key value).run g).2.parameter?
    = Function.update g.parameter? key (some value)
  removeParameter : ∀ key, ((Edit.removeParameter key).run g).1
    = .parameter (g.parameter? key) ∧
    ((Edit.removeParameter key).run g).2.parameter?
    = Function.update g.parameter? key none

theorem InOrder.isMaps (order : g.InOrder) : g.IsMaps where
  distinct := order.distinct
  id_of_symbol _ symbol there := order.id?_eq_some_iff.mpr ⟨symbol, there, rfl⟩
  symbol_of_id _ _ := order.id?_eq_some_iff.mp
  intern name := ⟨_, rfl, g.id?_intern name⟩
  ascending := order.rules
  mem_rules _ _ := Table.mem_iff_find? order.rules
  setRule id as := ⟨rfl, g.rule?_setRule id as⟩
  removeRule id := ⟨rfl, order.rule?_removeRule id⟩
  addAlternative id a := ⟨rfl, g.rule?_addAlternative id a⟩
  setParameter key value := ⟨rfl, g.parameter?_setParameter key value⟩
  removeParameter key := ⟨rfl, order.parameter?_removeParameter key⟩

/-- **Operations keep the tables of a grammar.** After any history of operations
that are done or fail, the tables are maps. The search for a free name, in any
symbol table, ends with the first. -/
theorem edited_tables (edits : List Edit) :
    (edited edits).IsMaps ∧
      ∀ symbols : List Symbol, ∃ n, freeName symbols = syntheticName n ∧
      n ≤ symbols.length + symbols.length ∧
        IsLeast {k | symbols.length ≤ k ∧ syntheticName k ∉ namesIn symbols}
        n :=
  ⟨(inOrder_edited edits).isMaps, freeName_isLeast⟩

end Grammar

end Lexigram
