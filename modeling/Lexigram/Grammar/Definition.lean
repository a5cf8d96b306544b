import Lexigram.Grammar.Token

/-!
Definitions, the sentences of the notation for grammars: a rule names its
alternatives, a parameter its value. Symbols are still names here.
`Definition.write` gives the text of a definition; every literal is written so
that reading it back ends at its closing quote.
-/

namespace Lexigram

/-- What one sentence of a grammar's text says. -/
inductive Definition where
  /-- The symbol `name` matches any of the alternatives; `start` marks where
  derivations start. -/
  | rule (name : String) (start : Bool)
      (alternatives : List (Alternative String))
  /-- The parameter `key` has the value `value`. -/
  | parameter (key value : String)
  deriving DecidableEq, Repr

/-- A pattern with a backslash before each quote that has none; `escaped` says
whether the first character already follows a backslash. -/
def escapeQuotes (escaped : Bool) : List Char → List Char
  | [] => []
  | c :: cs =>
    let next := escapeQuotes (c = '\\' && !escaped) cs
    if c = '"' ∧ !escaped then '\\' :: c :: next else c :: next

/-- A literal: the pattern between quotes. -/
def writeLiteral (pattern : List Char) : List Char :=
  '"' :: escapeQuotes false pattern ++ ['"']

/-- A symbol's name between angle brackets. -/
def writeName (name : List Char) : List Char :=
  '<' :: name ++ ['>']

namespace Token

mutual

/-- The text of a token. -/
def write : Token String → List Char
  | .literal p => writeLiteral p.toList
  | .reference name => writeName name.toList
  | .group m ts => '\x7b' :: writeAll ts ++ '\x7d' :: m.suffix

/-- The text of a sequence, one blank between two tokens. -/
def writeAll : List (Token String) → List Char
  | [] => []
  | t :: ts => write t ++ writeTail ts

/-- The text of the rest of a sequence, a blank before each token. -/
def writeTail : List (Token String) → List Char
  | [] => []
  | t :: ts => ' ' :: write t ++ writeTail ts

end

end Token

/-- The text of an alternative; an empty literal stands for the alternative
without tokens. -/
def Alternative.write (a : Alternative String) : List Char :=
  if a.isEmpty then writeLiteral [] else Token.writeAll a

/-- The text of the alternatives of a rule, bars between them. -/
def writeAlternatives : List (Alternative String) → List Char
  | [] => []
  | a :: as => ' ' :: a.write ++ as.flatMap fun b => [' ', '|', ' '] ++ b.write

namespace Definition

/-- The text of a definition, without the end of its line. -/
def write : Definition → List Char
  | .rule name start as =>
    '<' :: (if start then ['!'] else []) ++ name.toList
      ++ ['>', ' ', ':', ':', '='] ++ writeAlternatives as ++ [' ', ';']
  | .parameter key value =>
    ['<', '#'] ++ key.toList ++ ['>', ' ', ':', '=', ' ']
      ++ writeLiteral value.toList ++ [' ', ';']

/-- The symbols a definition names, in the order they stand in. -/
def mentions : Definition → List String
  | .rule name _ as => name :: as.flatMap Token.targets
  | .parameter _ _ => []

/-- The symbol that a rule defines. -/
def ruleName? : Definition → Option String
  | .rule name _ _ => some name
  | .parameter _ _ => none

end Definition

/-- The text of definitions, one to a line. -/
def writeDefinitions (ds : List Definition) : List Char :=
  ds.flatMap fun d => d.write ++ ['\n']

end Lexigram
