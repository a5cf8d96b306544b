import Lexigram.Grammar.Basic

/-!
The outline of a grammar: its symbol table, then for each rule the tree of its
tokens, one token to a line, two blanks of indent to a level.
-/

namespace Lexigram

/-- A line of an outline: how deep it is indented, and what it says. -/
structure OutlineLine where
  level : Nat
  text : String
  deriving Repr, DecidableEq

/-- The text of a line, with its end. -/
def OutlineLine.write (line : OutlineLine) : List Char :=
  List.replicate (2 * line.level) ' ' ++ line.text.toList ++ ['\n']

/-- The text of an outline. -/
def writeOutline (lines : List OutlineLine) : List Char :=
  lines.flatMap OutlineLine.write

namespace Token

/-- What an outline says of a token itself. -/
def outlineText (g : Grammar) : Token SymbolId → String
  | .literal p => "Literal(" ++ String.ofList (writeLiteral p.toList) ++ ")"
  | .reference t => "TagRef(" ++ g.nameOf t ++ ", " ++ renderId t ++ ")"
  | .group m _ => m.label

mutual

/-- The outline of a token and of those inside it. -/
def outline (g : Grammar) (level : Nat) : Token SymbolId → List OutlineLine
  | .group m ts =>
    ⟨level, outlineText g (.group m ts)⟩ :: outlineAll g (level + 1) ts
  | t => [⟨level, outlineText g t⟩]

/-- The outlines of the tokens of a sequence. -/
def outlineAll (g : Grammar) (level : Nat) :
    List (Token SymbolId) → List OutlineLine
  | [] => []
  | t :: ts => outline g level t ++ outlineAll g level ts

end

end Token

namespace Grammar

/-- What the outline says of a symbol with an id. -/
def outlineSymbol (symbol : Symbol) (id : SymbolId) : OutlineLine :=
  ⟨1, renderId id ++ " " ++ symbol.name
    ++ if symbol.synthetic then " (synthetic)" else ""⟩

/-- The outline of a rule. -/
def outlineRule (g : Grammar) (id : SymbolId)
    (alternatives : List (Alternative SymbolId)) : List OutlineLine :=
  ⟨0, "Rule " ++ renderId id ++ " " ++ g.nameOf id⟩ ::
    alternatives.flatMap fun a => ⟨1, "Option"⟩ :: Token.outlineAll g 2 a

/-- The outline of a grammar. -/
def outline (g : Grammar) : List OutlineLine :=
  ⟨0, "Tags"⟩ :: (g.symbols.zipIdx.map fun (symbol, id) =>
    outlineSymbol symbol id) ++ g.rules.flatMap fun (id, alternatives) =>
      g.outlineRule id alternatives

end Grammar

end Lexigram
