import Lexigram.Grammar.Definition
import Lexigram.Grammar.Reader
import Lexigram.Table

/-!
Grammars. A symbol is known by its id, its place in the symbol table; the rules
are a table by id, the parameters a table by key. A rule's id need not be in the
symbol table. A grammar is made of definitions (`ofDefinitions`) and gives them
back (`definitions`), which is how it is read and printed.
-/

namespace Lexigram

/-- The id of a symbol. -/
abbrev SymbolId := Nat

/-- A name of a grammar. -/
structure Symbol where
  name : String
  /-- Whether it was made up when groups were replaced by rules. -/
  synthetic : Bool
  deriving Repr, DecidableEq

/-- The rules, by the symbol they define. -/
abbrev Rules := Table SymbolId (List (Alternative SymbolId))

/-- A grammar: its symbols, for some of them a rule, its parameters and its
start symbol. -/
structure Grammar where
  symbols : List Symbol
  rules : Rules
  parameters : Table String String
  start : Option SymbolId
  deriving Repr, DecidableEq

/-- The id that a name has, or would get next. -/
def idIn (symbols : List Symbol) (name : String) : SymbolId :=
  symbols.findIdx (·.name = name)

/-- Adds a name to the symbols, unless it is there. -/
def internIn (symbols : List Symbol) (name : String) : List Symbol :=
  if symbols.any (·.name = name) then symbols else symbols ++ [⟨name, false⟩]

/-- The name a symbol table has for an id; a question mark stands for all it
does not know. -/
def nameIn (symbols : List Symbol) (id : SymbolId) : String :=
  match symbols[id]? with
  | some symbol => symbol.name
  | none => "?"

/-- An id as it is written in messages. -/
def renderId (id : SymbolId) : String :=
  "#" ++ toString id

namespace Grammar

/-- The grammar without symbols. -/
def empty : Grammar := ⟨[], [], [], none⟩

/-- The symbol with an id. -/
def symbol? (g : Grammar) (id : SymbolId) : Option Symbol :=
  g.symbols[id]?

/-- The name of a symbol, `?` for an unknown one. -/
def nameOf (g : Grammar) (id : SymbolId) : String :=
  nameIn g.symbols id

/-- The id of a name. -/
def id? (g : Grammar) (name : String) : Option SymbolId :=
  g.symbols.findIdx? (·.name = name)

/-- The id of a name, which is added to the symbols if need be. -/
def intern (g : Grammar) (name : String) : Grammar × SymbolId :=
  ({ g with symbols := internIn g.symbols name }, idIn g.symbols name)

/-- The alternatives of a symbol's rule. -/
def rule? (g : Grammar) (id : SymbolId) :
    Option (List (Alternative SymbolId)) :=
  g.rules.find? id

/-- Sets the rule of a symbol. -/
def setRule (g : Grammar) (id : SymbolId)
    (alternatives : List (Alternative SymbolId)) : Grammar :=
  { g with rules := g.rules.insert id alternatives }

/-- Takes the rule of a symbol out. -/
def removeRule (g : Grammar) (id : SymbolId) : Grammar :=
  { g with rules := g.rules.erase id }

/-- Adds an alternative at the end of a symbol's rule, if it has one. -/
def addAlternative (g : Grammar) (id : SymbolId) (a : Alternative SymbolId) :
    Grammar :=
  match g.rule? id with
  | some alternatives => g.setRule id (alternatives ++ [a])
  | none => g

/-- Sets the start symbol. -/
def setStart (g : Grammar) (id : SymbolId) : Grammar :=
  { g with start := some id }

/-- The value of a parameter. -/
def parameter? (g : Grammar) (key : String) : Option String :=
  g.parameters.find? key

/-- Sets a parameter. -/
def setParameter (g : Grammar) (key value : String) : Grammar :=
  { g with parameters := g.parameters.insert key value }

/-- Takes a parameter out. -/
def removeParameter (g : Grammar) (key : String) : Grammar :=
  { g with parameters := g.parameters.erase key }

/-- How many alternatives there are in all rules. -/
def alternativeCount (g : Grammar) : Nat :=
  g.rules.values.flatten.length

/-- Adds what a definition says. Its names get ids in the order they stand
in. -/
def define (g : Grammar) (d : Definition) : Grammar :=
  let symbols := d.mentions.foldl internIn g.symbols
  let g := { g with symbols }
  match d with
  | .parameter key value => g.setParameter key value
  | .rule name start alternatives =>
    let id := idIn symbols name
    let g := g.setRule id (alternatives.map (Token.mapAll (idIn symbols)))
    if start then g.setStart id else g

/-- The grammar that definitions make, one after the other. -/
def ofDefinitions (ds : List Definition) : Grammar :=
  ds.foldl define empty

/-- Reads a grammar. -/
def ofText? (text : List Char) : Except ReadError Grammar :=
  (Reading.ofText text).result.map ofDefinitions

/-- The definition of one rule. -/
def definitionOf (g : Grammar) (id : SymbolId)
    (alternatives : List (Alternative SymbolId)) : Definition :=
  .rule (g.nameOf id) (g.start = some id)
    (alternatives.map (Token.mapAll g.nameOf))

/-- The definitions that make up a grammar: parameters by key, then rules by
id. -/
def definitions (g : Grammar) : List Definition :=
  g.parameters.map (fun (key, value) => .parameter key value)
    ++ g.rules.map (fun (id, alternatives) => g.definitionOf id alternatives)

/-- The text of a grammar. -/
def write (g : Grammar) : List Char :=
  writeDefinitions g.definitions

end Grammar

/-- The pattern of a rule whose only alternative is one literal. -/
def singleLiteral? {ι : Type} : List (Alternative ι) → Option String
  | [[.literal p]] => some p
  | _ => none

/-- Whether some alternative has a group among its tokens. -/
def hasGroups {ι : Type} (alternatives : List (Alternative ι)) : Bool :=
  alternatives.any (·.any Token.isGroup)

/-- Whether some rule has a group. -/
def Grammar.hasGroups (g : Grammar) : Bool :=
  g.rules.values.any Lexigram.hasGroups

end Lexigram
