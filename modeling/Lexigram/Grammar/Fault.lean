import Lexigram.Grammar.Basic

/-!
Faults in the structure of a grammar. `Grammar.fault?` finds the first one: the
rule with the least id that has any, and in it the first in the order of
alternatives and tokens, members before their group.
-/

namespace Lexigram

/-- Why a rule is malformed. -/
inductive Malformation where
  | noAlternatives
  | emptyGroup
  deriving Repr, DecidableEq

/-- The malformation in words. -/
def Malformation.reason : Malformation → String
  | noAlternatives => "rule has no options"
  | emptyGroup => "group has no children"

/-- What is wrong with a rule. -/
inductive GrammarFault where
  | malformed (rule : SymbolId) (name : String) (how : Malformation)
  | dangling (rule : SymbolId) (name : String) (target : SymbolId)
      (targetName : String)
  deriving Repr, DecidableEq

/-- That a rule refers to a symbol without one, in words. -/
def missingRuleMessage (rule : SymbolId) (name : String) (target : SymbolId)
    (targetName : String) : String :=
  "rule <" ++ name ++ "> (" ++ renderId rule ++ ") references <" ++ targetName
    ++ "> (" ++ renderId target ++ ") which has no rule"

/-- The fault in words. -/
def GrammarFault.message : GrammarFault → String
  | malformed rule name how =>
    "malformed grammar in rule <" ++ name ++ "> (" ++ renderId rule ++ "): "
      ++ how.reason
  | dangling rule name target targetName =>
    missingRuleMessage rule name target targetName

namespace Grammar

/-- What is wrong with a token of the rule `rule` itself. -/
def tokenFault? (g : Grammar) (rule : SymbolId) :
    Token SymbolId → Option GrammarFault
  | .literal _ => none
  | .reference t =>
    match g.rule? t with
    | some _ => none
    | none => some (.dangling rule (g.nameOf rule) t (g.nameOf t))
  | .group _ [] => some (.malformed rule (g.nameOf rule) .emptyGroup)
  | .group _ (_ :: _) => none

/-- The first fault of a rule. -/
def ruleFault? (g : Grammar) (rule : SymbolId)
    (alternatives : List (Alternative SymbolId)) : Option GrammarFault :=
  if alternatives.isEmpty then
    some (.malformed rule (g.nameOf rule) .noAlternatives)
  else alternatives.findSome? fun a =>
    (Token.postorderAll a).findSome? (g.tokenFault? rule)

/-- The first fault of a grammar. -/
def fault? (g : Grammar) : Option GrammarFault :=
  g.rules.findSome? fun (rule, alternatives) => g.ruleFault? rule alternatives

end Grammar

end Lexigram
