import Lexigram.Proofs.Grammar.Edits

/-!
What making a grammar plain adds to it, and what it leaves as it is. If all
rules define symbols of the table, it only adds: symbols with new names, and one
rule for each (`Grammar.plain_onlyAdds`). A rule under an id beyond the table is
lost when a made-up symbol gets this id: the rules that are kept, and how many
there are then, are told for every history by the ids from the end of the old
table to that of the new (`Grammar.plain_edited_rules`).
-/

namespace Lexigram

/-! ## Alternatives without groups -/

/-- Tokens that are no groups are plain as they are. -/
theorem Flattened.map_fst_eq {bound : Nat} {recursion : Recursion}
    {made : List (SymbolId × List (Alternative SymbolId))}
    {ts : Alternative SymbolId} {us : List (Token SymbolId × Bool)}
    (flat : Flattened bound recursion made ts us)
    (leaves : ∀ t ∈ ts, t.isGroup = false) : us.map (·.1) = ts := by
  induction flat with
  | nil => rfl
  | literal _ ih =>
    exact congrArg (List.cons _) (ih (List.forall_mem_cons.mp leaves).2)
  | reference _ _ ih =>
    exact congrArg (List.cons _) (ih (List.forall_mem_cons.mp leaves).2)
  | inlined => cases (List.forall_mem_cons.mp leaves).1
  | single => cases (List.forall_mem_cons.mp leaves).1
  | repeated => cases (List.forall_mem_cons.mp leaves).1

/-- An alternative without groups stays in its place, in front of all
variants. -/
theorem FlattenedRule.getElem?_eq {bound : Nat} {recursion : Recursion}
    {made : List (SymbolId × List (Alternative SymbolId))}
    {as flat : List (Alternative SymbolId)}
    (rule : FlattenedRule bound recursion made as flat)
    {i : Nat} {a : Alternative SymbolId} (here : as[i]? = some a)
    (leaves : ∀ t ∈ a, t.isGroup = false) : flat[i]? = some a := by
  obtain ⟨marked, all, rfl⟩ := rule
  obtain ⟨length, each⟩ := List.forall₂_iff_get.mp all
  obtain ⟨lt, rfl⟩ := List.getElem?_eq_some_iff.mp here
  have lt' : i < marked.length := length ▸ lt
  have own : marked[i].map (·.1) = as[i] :=
    Flattened.map_fst_eq (each i lt lt') leaves
  rw [withVariants, List.getElem?_append_left (by rwa [List.length_map]),
    List.getElem?_map, List.getElem?_eq_getElem lt', Option.map_some, own]

namespace Grammar

variable {g h : Grammar}

/-! ## Rules of the table -/

/-- Whether `h` is `g` with more symbols and rules: each new symbol is made up,
under a name that no other has, and has one rule. Alternatives without groups
stay where they are in their rules. -/
structure OnlyAdds (g h : Grammar) : Prop where
  symbols : g.symbols <+: h.symbols
  synthetic : ∀ id symbol, g.symbols.length ≤ id → h.symbol? id = some symbol →
    symbol.synthetic = true
  named : ∀ id symbol, g.symbols.length ≤ id → h.symbol? id = some symbol →
    ∀ other symbol', h.symbol? other = some symbol' →
    symbol'.name = symbol.name → other = id
  ruled : ∀ id, g.symbols.length ≤ id → id < h.symbols.length →
    (Table.keys h.rules).count id = 1
  start : h.start = g.start
  parameters : h.parameters = g.parameters
  kept : ∀ id as, g.rule? id = some as → ∃ flat, h.rule? id = some flat ∧
    ∀ (i : Nat) (a : Alternative SymbolId), as[i]? = some a →
    (∀ t ∈ a, t.isGroup = false) → flat[i]? = some a

namespace DraftedAs

variable {bound : Nat} {recursion : Recursion} {flat : Rules}
  {created : List (SymbolId × List (Alternative SymbolId))}

/-- Made-up symbols are synthetic, and no other symbol has their names. -/
theorem names_of_new (drafted : g.DraftedAs h bound recursion flat created)
    {id : SymbolId} {symbol : Symbol} (ge : g.symbols.length ≤ id)
    (there : h.symbol? id = some symbol) :
    symbol.synthetic = true ∧ ∀ other symbol', h.symbol? other = some symbol' →
      symbol'.name = symbol.name →
      other = id := by
  obtain ⟨new, eq, synthetic, distinct, apart⟩ := drafted.completes.symbols
  have eq : h.symbols = g.symbols ++ new := eq
  rw [symbol?, eq, List.getElem?_append_right ge] at there
  have mem : symbol ∈ new := List.mem_of_getElem? there
  refine ⟨synthetic symbol mem, ?_⟩
  intro other symbol' there' same
  rw [symbol?, eq] at there'
  by_cases old : other < g.symbols.length
  · rw [List.getElem?_append_left old] at there'
    have before : symbol.name ∈ namesIn g.symbols :=
      same ▸ List.mem_map_of_mem (List.mem_of_getElem? there')
    exact absurd (List.mem_map_of_mem mem) (List.disjoint_left.mp apart before)
  · rw [List.getElem?_append_right (Nat.le_of_not_lt old)] at there'
    have name : (namesIn new)[id - g.symbols.length]? = some symbol.name := by
      rw [namesIn, List.getElem?_map, there, Option.map_some]
    have name' : (namesIn new)[other - g.symbols.length]?
        = some symbol.name := by
      rw [namesIn, List.getElem?_map, there', Option.map_some, same]
    obtain ⟨lt, -⟩ := List.getElem?_eq_some_iff.mp name
    have place := (List.getElem?_inj lt distinct).mp (name.trans name'.symm)
    calc other = other - g.symbols.length + g.symbols.length :=
           (Nat.sub_add_cancel (Nat.le_of_not_lt old)).symm
      _ = id - g.symbols.length + g.symbols.length := by rw [place]
      _ = id := Nat.sub_add_cancel ge

end DraftedAs

/-- **Making a grammar plain only adds to it.** This asks that all its rules
define symbols of its table. -/
theorem plain_onlyAdds {recursion : Recursion}
    (known : ∀ rule ∈ g.rules, rule.1 < g.symbols.length)
    (made : g.plain recursion = .ok h) : g.OnlyAdds h := by
  obtain ⟨bound, flat, created, drafted⟩ := exists_drafted made
  have old : ∀ id ∈ Table.keys g.rules, id < g.symbols.length :=
    List.forall_mem_map.mpr known
  have fresh : ∀ id ∈ Table.keys created, id ∉ Table.keys g.rules := by
    intro id new there
    exact Nat.not_lt_of_le (drafted.mem_keys_created.mp new).1 (old id there)
  have start : h.start = g.start := by rw [drafted.eq]
  have parameters : h.parameters = g.parameters := by rw [drafted.eq]
  refine ⟨?_, fun id symbol ge there => (drafted.names_of_new ge there).1,
    fun id symbol ge there => (drafted.names_of_new ge there).2, ?_, start,
    parameters, ?_⟩
  · obtain ⟨new, eq, -⟩ := drafted.completes.symbols
    exact ⟨new, eq.symm⟩
  · intro id ge lt
    have mem : id ∈ Table.keys created := drafted.mem_keys_created.mpr ⟨ge, lt⟩
    have all := Table.keys_insertAll_perm drafted.nodup_keys_created (t := flat)
      (drafted.keys_flat ▸ fresh)
    rw [drafted.rules_eq, all.count_eq, List.count_append,
      drafted.keys_flat, List.count_eq_zero.mpr (fresh id mem),
      List.count_eq_one_of_mem drafted.nodup_keys_created mem]
  · intro id as rule
    have known : id ∈ Table.keys g.rules :=
      List.mem_map_of_mem (Table.mem_of_find? rule)
    obtain ⟨flat', plain, flattened⟩ :=
      drafted.exists_rule? (fun new => fresh id new known) rule
    exact ⟨flat', plain, fun i a here leaves => flattened.getElem?_eq
      here leaves⟩

end Grammar

/-- The grammar `<r> ::= {"a" "b"}+ "c" | "d" <r> ;` with a symbol whose name
might be made up. -/
def pairsThenEnd : Grammar where
  symbols := [⟨"r", false⟩, ⟨"__bnf_2", false⟩]
  rules := [(0, [[.group .oneOrMore [.literal "a", .literal "b"], .literal "c"],
    [.literal "d", .reference 0]])]
  parameters := []
  start := some 0

/-- The symbol made up for the pairs has the next name, and the second
alternative stays the second. -/
theorem pairsThenEnd_onlyAdds :
    (∀ rule ∈ pairsThenEnd.rules, rule.1 < pairsThenEnd.symbols.length) ∧ ∃ h,
      pairsThenEnd.plain .right = .ok h ∧ h.symbol? 2 = some ⟨"__bnf_3", true⟩ ∧
      h.rule? 0 = some [[.reference 2, .literal "c"],
        [.literal "d", .reference 0]] ∧ pairsThenEnd.OnlyAdds h := by
  have known : ∀ rule ∈ pairsThenEnd.rules,
    rule.1 < pairsThenEnd.symbols.length := by decide
  exact ⟨known, _, rfl, by decide +kernel, by decide +kernel,
    Grammar.plain_onlyAdds known rfl⟩

namespace Grammar

/-! ## Rules beyond the table -/

/-- Whether all rules of `g` are kept as `h` is made of it: no rule defines or
mentions a symbol that was made up, there is one more rule for each, and each
rule of `g` is there, made plain. -/
structure KeepsRules (g h : Grammar) (bound : Nat) (recursion : Recursion)
    (created : List (SymbolId × List (Alternative SymbolId))) : Prop where
  unused : ∀ id ∈ Table.keys created, ∀ rule ∈ g.rules, id ∉ ruleMentions rule
  counted : h.rules.length = g.rules.length
    + (h.symbols.length - g.symbols.length)
  kept : ∀ id as, g.rule? id = some as →
    ∃ flat, h.rule? id = some flat ∧
    FlattenedRule bound recursion created as flat

namespace DraftedAs

variable {g h : Grammar} {bound : Nat} {recursion : Recursion} {flat : Rules}
  {created : List (SymbolId × List (Alternative SymbolId))}

/-- The rules of the plain grammar are those of the grammar and one for each
made-up symbol, but for the rules under ids that made-up symbols get. -/
theorem length_rules (drafted : g.DraftedAs h bound recursion flat created)
    (ordered : g.rules.Ordered) :
    h.rules.length + ((Table.keys g.rules).filter fun id =>
        g.symbols.length ≤ id ∧ id < h.symbols.length).length
      = g.rules.length + (h.symbols.length - g.symbols.length) := by
  have before : flat.Ordered := by
    rw [Table.Ordered, drafted.keys_flat]
    exact ordered
  have length : flat.length = g.rules.length := by
    rw [← Table.length_keys, drafted.keys_flat, Table.length_keys]
  have added : created.length = h.symbols.length - g.symbols.length := by
    rw [← Table.length_keys, drafted.keys_created_perm.length_eq,
      List.length_range']
  have counted := Table.length_insertAll before drafted.nodup_keys_created
  rw [← drafted.rules_eq, drafted.keys_flat, length, added] at counted
  simpa only [drafted.mem_keys_created] using counted

/-- All rules are kept exactly if no rule defines or mentions an id that a
made-up symbol gets. -/
theorem keepsRules_iff (drafted : g.DraftedAs h bound recursion flat created)
    (ordered : g.rules.Ordered) :
    g.KeepsRules h bound recursion created ↔
      ∀ id, g.symbols.length ≤ id → id < h.symbols.length → ∀ rule ∈ g.rules,
      id ∉ ruleMentions rule := by
  constructor
  · intro keeps id ge lt
    exact keeps.unused id (drafted.mem_keys_created.mpr ⟨ge, lt⟩)
  · intro unused
    have own : ∀ id, id ∈ Table.keys g.rules → id ∉ Table.keys created := by
      intro id there new
      obtain ⟨rule, mem, rfl⟩ := List.mem_map.mp there
      obtain ⟨ge, lt⟩ := drafted.mem_keys_created.mp new
      exact unused rule.1 ge lt rule mem List.mem_cons_self
    refine ⟨fun id new => ?_, ?_, fun id as rule => ?_⟩
    · obtain ⟨ge, lt⟩ := drafted.mem_keys_created.mp new
      exact unused id ge lt
    · have none : (Table.keys g.rules).filter
          (fun id => g.symbols.length ≤ id ∧ id < h.symbols.length) = [] := by
        rw [List.filter_eq_nil_iff]
        intro id there range
        exact own id there (drafted.mem_keys_created.mpr
          (of_decide_eq_true range))
      have counted := drafted.length_rules ordered
      rwa [none, List.length_nil, Nat.add_zero] at counted
    · exact drafted.exists_rule?
        (own id (List.mem_map_of_mem (Table.mem_of_find? rule))) rule

end DraftedAs

/-- **Making a grammar plain loses rules only to made-up symbols.** Take a
grammar with any history that is made plain. Each symbol that is made up gets
the next id and a rule, which takes the place of a rule under this id. So all
rules under other ids are there, made plain, and none is lost exactly if there
is no rule under an id from the end of the table to that of the new one; all
goes well if no rule mentions such an id either. -/
theorem plain_edited_rules {edits : List Edit} {recursion : Recursion}
    {h : Grammar} (made : (edited edits).plain recursion = .ok h) :
    ∃ bound created,
      (Table.keys created).Perm
          (List.range' (edited edits).symbols.length
            (h.symbols.length - (edited edits).symbols.length)) ∧
      (∀ id as, (id, as) ∈ created → h.rule? id = some as) ∧
      (∀ id as, id ∉ Table.keys created → (edited edits).rule? id = some as →
        ∃ flat, h.rule? id = some flat ∧
        FlattenedRule bound recursion created as flat) ∧
      h.rules.length + ((Table.keys (edited edits).rules).filter fun id =>
            (edited edits).symbols.length ≤ id ∧ id < h.symbols.length).length
          = (edited edits).rules.length
            + (h.symbols.length - (edited edits).symbols.length) ∧
      ((edited edits).KeepsRules h bound recursion created ↔
        ∀ id, (edited edits).symbols.length ≤ id → id < h.symbols.length →
          ∀ rule ∈ (edited edits).rules, id ∉ ruleMentions rule) := by
  have ordered := (inOrder_edited edits).rules
  obtain ⟨bound, flat, created, drafted⟩ := exists_drafted made
  exact ⟨bound, created, drafted.keys_created_perm,
    fun id as => drafted.rule?_created,
    fun id as => drafted.exists_rule?, drafted.length_rules ordered,
    drafted.keepsRules_iff ordered⟩

end Grammar

/-- A history of a grammar with one symbol, `<a> ::= {"x"}* ;`, and a rule well
beyond the table. -/
def ruleBeyond : List Edit :=
  [.intern "a", .setRule 0 [[.group .zeroOrMore [.literal "x"]]],
    .setRule 7 [[.literal "b"]]]

/-- The rule made up for the repetition stands between the others. -/
theorem ruleBeyond_kept : ∃ h, (Grammar.edited ruleBeyond).plain .right
    = .ok h ∧ Table.keys h.rules = [0, 1, 7] ∧ ∃ bound created,
    (Grammar.edited ruleBeyond).KeepsRules h bound .right created := by
  obtain ⟨h, made, keys, symbols, unused⟩ : ∃ h,
      (Grammar.edited ruleBeyond).plain .right = .ok h ∧
      Table.keys h.rules = [0, 1, 7] ∧ h.symbols.length = 2 ∧
      ∀ rule ∈ (Grammar.edited ruleBeyond).rules,
      1 ∉ Grammar.ruleMentions rule :=
    ⟨_, rfl, by decide +kernel, by decide +kernel, by decide⟩
  obtain ⟨bound, created, -, -, -, -, keeps⟩ := Grammar.plain_edited_rules made
  refine ⟨h, made, keys, bound, created, keeps.mpr ?_⟩
  intro id ge lt
  rw [symbols] at lt
  have first : (Grammar.edited ruleBeyond).symbols.length = 1 := rfl
  obtain rfl : id = 1 := Nat.le_antisymm (Nat.le_of_lt_succ lt) (first ▸ ge)
  exact unused

/-- A history of the same grammar with a rule under the id behind its only
symbol. -/
def ruleBehind : List Edit :=
  [.intern "a", .setRule 0 [[.group .zeroOrMore [.literal "x"]]],
    .setRule 1 [[.literal "b"]]]

/-- The symbol made up for the repetition gets this id, and its rule takes the
place of the one there. -/
theorem ruleBehind_lost : ∃ h, (Grammar.edited ruleBehind).plain .right
    = .ok h ∧ h.symbols.length = 2 ∧
    (Grammar.edited ruleBehind).rule? 1 = some [[.literal "b"]] ∧
    h.rule? 1 = some [[.literal "x", .reference 1], [.literal "x"]] ∧
    h.rules.length = (Grammar.edited ruleBehind).rules.length ∧ ∀ bound created,
    ¬ (Grammar.edited ruleBehind).KeepsRules h bound .right created := by
  obtain ⟨h, made, symbols, before, behind, length⟩ : ∃ h,
      (Grammar.edited ruleBehind).plain .right = .ok h ∧ h.symbols.length = 2 ∧
      (Grammar.edited ruleBehind).rule? 1 = some [[.literal "b"]] ∧
      h.rule? 1 = some [[.literal "x", .reference 1], [.literal "x"]] ∧
      h.rules.length = (Grammar.edited ruleBehind).rules.length :=
    ⟨_, rfl, by decide +kernel, by decide, by decide +kernel, by decide +kernel⟩
  refine ⟨h, made, symbols, before, behind, length, ?_⟩
  intro bound created keeps
  have counted := keeps.counted
  rw [length, symbols] at counted
  exact absurd counted (by decide)

end Lexigram
