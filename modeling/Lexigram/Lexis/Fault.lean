import Lexigram.Grammar.Fault

/-!
Why no lexer can be made of a grammar.
-/

namespace Lexigram

/-- Why the pattern of a lexer is refused. -/
inductive PatternRefusal where
  /-- The rule matches the empty text, so its matches would not move the lexer
  on. -/
  | matchesEmpty (name : String)
  | noTokenRules
  | noRule (name : String)
  /-- The text is no pattern. -/
  | malformed (pattern : String)
  deriving Repr, DecidableEq

/-- The refusal in words. -/
def PatternRefusal.reason : PatternRefusal → String
  | matchesEmpty name => "<" ++ name ++ "> matches the empty string"
  | noTokenRules => "the grammar defines no token rules"
  | noRule name => "<" ++ name ++ "> has no rule"
  | malformed pattern => "the regex engine rejected " ++ Text.quoted pattern

/-- What is wrong with a grammar that is to become a lexer. -/
inductive AssemblyFault where
  /-- A reserved symbol is mentioned but has no rule. -/
  | missingSpecialRule (symbol : SymbolId) (name : String)
  /-- A rule refers to a symbol without one. -/
  | undefinedRule (rule : SymbolId) (name : String) (target : SymbolId)
      (targetName : String)
  | refused (why : PatternRefusal)
  deriving Repr, DecidableEq

/-- The fault in words. -/
def AssemblyFault.message : AssemblyFault → String
  | missingSpecialRule symbol name =>
    "reserved rule <" ++ name ++ "> (" ++ renderId symbol
      ++ ") is declared but never defined"
  | undefinedRule rule name target targetName =>
    missingRuleMessage rule name target targetName
  | refused why => "failed to assemble the lexer regex: " ++ why.reason

end Lexigram
