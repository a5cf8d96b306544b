import Lexigram.Lexis.Fragment
import Lexigram.Pattern.Search

/-!
Lexicons. A lexicon is made of the rules of a grammar and recognises all its
tokens with one pattern, the master: a choice of groups, one for each token rule
in the order of their ids, then one for white space and, if asked for, one for
errors. Which group took part in a match says what was matched.
-/

namespace Lexigram

open Pattern (Compiled Match)

/-- The symbols that do not stand for tokens: one for white space and others for
configuration. -/
structure Reserved where
  whitespace : String
  configuration : List String
  deriving Repr, DecidableEq

namespace Reserved

/-- The names that are reserved unless others are given. -/
def default : Reserved := ⟨"whitespace", ["delim", "regex-delim"]⟩

/-- Whether a name is reserved. -/
def contains (r : Reserved) (name : String) : Bool :=
  r.whitespace == name || r.configuration.contains name

end Reserved

/-- The pattern of white space in a grammar that has no rule for it. -/
def defaultWhitespace : String := "\\s+"

/-- The pattern of what no rule matches. -/
def errorPattern : String := ".+"

/-- The symbol of a token. -/
structure TokenKind where
  id : SymbolId
  name : String
  deriving Repr, DecidableEq

/-- A rule with its fragment. -/
structure LexicalRule where
  kind : TokenKind
  fragment : String
  /-- The fragment between anchors, for whole texts. -/
  whole : Compiled
  deriving Repr, DecidableEq

/-- What a match stands for. -/
inductive Role where
  | token (kind : TokenKind)
  | whitespace
  | error
  deriving Repr, DecidableEq

/-- The pattern of a lexer and the meaning of its groups. -/
structure Lexicon where
  /-- The text of the master pattern. -/
  source : String
  master : Compiled
  /-- The token rules, in the order of their groups. -/
  rules : List LexicalRule
  /-- The reserved rules for configuration that are defined. -/
  configuration : List LexicalRule
  /-- The pattern of white space. -/
  whitespace : String
  /-- The group of each kind of token. -/
  tokenGroups : List (Nat × TokenKind)
  whitespaceGroup : Nat
  errorGroup : Option Nat
  deriving Repr, DecidableEq

/-- How a lexicon is made. -/
structure LexiconOptions where
  /-- Whether what no rule matches becomes an error that the lexer goes on
  after. -/
  fallback : Bool
  reserved : Reserved
  deriving Repr, DecidableEq

/-- Compiles a pattern that is part of a lexicon. -/
def compilePart (pattern : String) : Except AssemblyFault Compiled :=
  match Compiled.ofText? pattern with
  | .ok c => .ok c
  | .error _ => .error (.refused (.malformed pattern))

/-- The text of a pattern for whole texts. -/
def anchored (pattern : String) : String :=
  "^(?:" ++ pattern ++ ")$"

namespace LexicalRule

/-- Compiles the fragment of a rule. -/
def compile (kind : TokenKind) (fragment : String) :
    Except AssemblyFault LexicalRule := do
  return ⟨kind, fragment, ← compilePart (anchored fragment)⟩

/-- Whether the rule matches the whole of a text. -/
def matchesWhole (r : LexicalRule) (text : String) : Bool :=
  r.whole.matchesIn (Text.bytesOf text)

/-- How many groups the fragment itself records. -/
def innerGroups (r : LexicalRule) : Nat :=
  r.whole.groups - 1

end LexicalRule

namespace Grammar

/-- The fragment of a symbol's rule, as text. -/
def fragmentText (g : Grammar) (id : SymbolId) : Except AssemblyFault String :=
  (g.fragment id).map String.ofList

/-- The fragment of a reserved symbol, which has to have a rule. -/
def specialFragment (g : Grammar) (id : SymbolId) :
    Except AssemblyFault String :=
  if (g.rule? id).isSome then g.fragmentText id
  else .error (.missingSpecialRule id (g.nameOf id))

/-- The pattern of white space. -/
def whitespacePattern (g : Grammar) (reserved : Reserved) :
    Except AssemblyFault String := do
  let pattern ← match g.id? reserved.whitespace with
    | some id => g.specialFragment id
    | none => .ok defaultWhitespace
  if (← compilePart (anchored pattern)).matchesIn [] then
    .error (.refused (.matchesEmpty reserved.whitespace))
  else return pattern

/-- The reserved symbols for configuration that the grammar has. -/
def configurationKinds (g : Grammar) (reserved : Reserved) : List TokenKind :=
  reserved.configuration.filterMap fun name => (g.id? name).map (⟨·, name⟩)

/-- The symbols that stand for tokens: they have a rule, were not made up and
are not reserved. -/
def tokenKinds (g : Grammar) (reserved : Reserved) : List TokenKind :=
  g.rules.keys.filterMap fun id =>
    match g.symbol? id with
    | some symbol =>
      if symbol.synthetic || reserved.contains symbol.name then none
      else some ⟨id, symbol.name⟩
    | none => none

/-- The rule of a reserved symbol. -/
def configurationRule (g : Grammar) (kind : TokenKind) :
    Except AssemblyFault LexicalRule := do
  LexicalRule.compile kind (← g.specialFragment kind.id)

/-- The rule of a kind of token, which may not match the empty text. -/
def tokenRule (g : Grammar) (kind : TokenKind) :
    Except AssemblyFault LexicalRule := do
  let rule ← LexicalRule.compile kind (← g.fragmentText kind.id)
  if rule.matchesWhole "" then .error (.refused (.matchesEmpty kind.name))
  else return rule

end Grammar

namespace Lexicon

/-- The groups of the token rules, numbered from `next` on, and the number
behind them. -/
def numberGroups (next : Nat) : List LexicalRule → List (Nat × TokenKind) × Nat
  | [] => ([], next)
  | r :: rs =>
    let (groups, last) := numberGroups (next + 1 + r.innerGroups) rs
    ((next, r.kind) :: groups, last)

end Lexicon

/-- What a lexicon is made of. -/
structure LexiconParts where
  /-- The pattern of white space. -/
  whitespace : String
  /-- How many groups the pattern of white space itself records. -/
  whitespaceGroups : Nat
  configuration : List LexicalRule
  rules : List LexicalRule
  fallback : Bool
  deriving Repr, DecidableEq

namespace LexiconParts

/-- Makes the parts of a grammar's lexicon. -/
def ofGrammar (g : Grammar) (options : LexiconOptions) :
    Except AssemblyFault LexiconParts := do
  let whitespace ← g.whitespacePattern options.reserved
  let configuration ← (g.configurationKinds options.reserved).mapM
    g.configurationRule
  let rules ← (g.tokenKinds options.reserved).mapM g.tokenRule
  if rules.isEmpty then throw (.refused .noTokenRules)
  return {
    whitespace, configuration, rules
    whitespaceGroups := (← compilePart whitespace).groups - 1
    fallback := options.fallback }

/-- The text of the master pattern. -/
def source (p : LexiconParts) : String :=
  String.join (p.rules.map fun r => "(" ++ r.fragment ++ ")|")
    ++ "(" ++ p.whitespace ++ ")"
    ++ if p.fallback then "|(" ++ errorPattern ++ ")" else ""

/-- The groups of the master pattern that stand for tokens, and the one that
stands for white space. -/
def groups (p : LexiconParts) : List (Nat × TokenKind) × Nat :=
  Lexicon.numberGroups 1 p.rules

/-- The group of errors, behind all others. -/
def errorGroup (p : LexiconParts) : Option Nat :=
  if p.fallback then some (p.groups.2 + 1 + p.whitespaceGroups) else none

/-- Puts the parts together. -/
def lexicon (p : LexiconParts) : Except AssemblyFault Lexicon := do
  return {
    source := p.source
    master := ← compilePart p.source
    rules := p.rules
    configuration := p.configuration
    whitespace := p.whitespace
    tokenGroups := p.groups.1
    whitespaceGroup := p.groups.2
    errorGroup := p.errorGroup }

end LexiconParts

namespace Lexicon

/-- Makes a lexicon of a grammar. -/
def ofGrammar (g : Grammar) (options : LexiconOptions) :
    Except AssemblyFault Lexicon := do
  (← LexiconParts.ofGrammar g options).lexicon

/-- What can be checked of the lexicon of a concrete grammar holds of it. -/
theorem exists_of_ofGrammar {g : Grammar}
    {options : LexiconOptions} {P : Lexicon → Prop} [DecidablePred P]
    (made : (ofGrammar g options).toOption.any (P ·) = true) :
    ∃ c, ofGrammar g options = .ok c ∧ P c := by
  obtain ⟨c, ok, holds⟩ := (Option.any_eq_true _ _).mp made
  refine ⟨c, ?_, of_decide_eq_true holds⟩
  cases eq : ofGrammar g options with
  | error f => rw [eq] at ok; cases ok
  | ok d => rw [eq] at ok; cases ok; rfl

/-- The records of making the rules of tokens, up to the first that fails. -/
def tokenRecords (g : Grammar) : List TokenKind → List LogRecord
  | [] => []
  | kind :: kinds =>
    match g.fragmentText kind.id with
    | .error _ => []
    | .ok fragment =>
      ⟨.debug, "fragment of <" ++ kind.name ++ ">: " ++ fragment⟩ ::
        match g.tokenRule kind with
        | .error _ => []
        | .ok _ => tokenRecords g kinds

/-- The records of making a lexicon: nothing is logged of its reserved rules,
which come first. -/
def recordsOf (g : Grammar) (options : LexiconOptions) : List LogRecord :=
  let reserved : Except AssemblyFault (List LexicalRule) := do
    let _ ← g.whitespacePattern options.reserved
    (g.configurationKinds options.reserved).mapM g.configurationRule
  match reserved with
  | .error _ => []
  | .ok _ =>
    tokenRecords g (g.tokenKinds options.reserved) ++
      match LexiconParts.ofGrammar g options with
      | .error _ => []
      | .ok parts => [⟨.debug, "master regex: " ++ parts.source⟩]

/-- The token rule or rule for configuration with a name. -/
def rule? (l : Lexicon) (name : String) : Option LexicalRule :=
  (l.rules ++ l.configuration).find? (·.kind.name = name)

/-- The kind of token of a group. -/
def tokenKind? (l : Lexicon) (group : Nat) : Option TokenKind :=
  l.tokenGroups.lookup group

/-- Whether errors have a group. -/
def hasFallback (l : Lexicon) : Bool :=
  l.errorGroup.isSome

end Lexicon

/-- Whether a group took part in a match with some text. -/
def Pattern.Match.fills (m : Match) (group : Nat) : Bool :=
  match m.group? group with
  | some (first, last) => first != last
  | none => false

/-- What a match stands for: the first group with some text, errors last. -/
def Lexicon.classify (l : Lexicon) (m : Match) : Option Role :=
  match l.tokenGroups.find? fun (group, _) => m.fills group with
  | some (_, kind) => some (.token kind)
  | none =>
    if m.fills l.whitespaceGroup then some .whitespace
    else match l.errorGroup with
      | some group => if m.fills group then some .error else none
      | none => none

end Lexigram
