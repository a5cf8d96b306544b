import Lexigram.Grammar.Fault

/-!
Plain grammars: grammars without groups. `Grammar.plain` replaces every group of
a grammar by what it means. A group that occurs once or may be missing becomes a
reference to a new rule with its members, or just its member when that is a
single literal or reference; a group that repeats becomes a reference to a new
rule that refers to itself. An alternative with groups that may be left out is
followed, at the end of its rule, by the alternatives without each selection of
them.
-/

namespace Lexigram

/-- Where a rule that repeats refers to itself. -/
inductive Recursion where
  | left
  | right
  deriving Repr, DecidableEq

/-- `body` with the reference of the rule `id` to itself. -/
def Recursion.extend (r : Recursion) (id : SymbolId)
    (body : Alternative SymbolId) : Alternative SymbolId :=
  match r with
  | .left => .reference id :: body
  | .right => body ++ [.reference id]

/-- What is made while groups are being replaced: the symbols so far and the new
rules, in the order of their completion. -/
structure Draft where
  symbols : List Symbol
  created : List (SymbolId × List (Alternative SymbolId))
  deriving Repr, DecidableEq

/-- A step that extends the draft or finds a fault; the draft up to a fault is
kept. -/
abbrev Drafting (α : Type) := EStateM GrammarFault Draft α

/-- The name of the `n`-th made-up symbol. -/
def syntheticName (n : Nat) : String :=
  "__bnf_" ++ toString n

/-- The first number from `n` on whose name is free; `tries` is how many may be
taken. -/
def freeNumber (symbols : List Symbol) : (tries n : Nat) → Nat
  | 0, n => n
  | tries + 1, n =>
    if symbols.any (·.name = syntheticName n) then
      freeNumber symbols tries (n + 1)
    else n

/-- A name that no symbol has, numbered from the size of the symbol table. -/
def freeName (symbols : List Symbol) : String :=
  syntheticName (freeNumber symbols symbols.length symbols.length)

namespace Drafting

/-- Reports that the rule `owner` is malformed. -/
def malformed {α : Type} (owner : SymbolId) (how : Malformation) : Drafting α :=
  fun draft => .error (.malformed owner (nameIn draft.symbols owner) how) draft

/-- Adds a made-up symbol. -/
def newSymbol : Drafting SymbolId :=
  fun draft =>
    .ok draft.symbols.length { draft with
      symbols := draft.symbols ++ [⟨freeName draft.symbols, true⟩] }

/-- Adds a rule. -/
def addRule (id : SymbolId) (alternatives : List (Alternative SymbolId)) :
    Drafting Unit :=
  fun draft =>
    .ok () { draft with created := draft.created ++ [(id, alternatives)] }

end Drafting

/-- An alternative and its variants: each token says whether it may be left out.
The alternative itself comes first; of two variants, the one that keeps the
token in which they first differ. -/
def omissions {α : Type} : List (α × Bool) → List (List α)
  | [] => [[]]
  | (t, nullable) :: rest =>
    let others := omissions rest
    others.map (t :: ·) ++ if nullable then others else []

/-- The member that takes the place of its group: it is alone, no group, and
does not repeat. -/
def inlined? (m : Multiplicity) :
    List (Token SymbolId) → Option (Token SymbolId)
  | [t] => if m.isRepeat || t.isGroup then none else some t
  | _ => none

/-- What a repetition repeats: the only alternative, or a reference to a new
rule with all of them. -/
def repeatedBody : List (Alternative SymbolId) → Drafting (Alternative SymbolId)
  | [only] => pure only
  | several => do
    let body ← Drafting.newSymbol
    Drafting.addRule body several
    return [.reference body]

/-- Completes the rule `id` of a group whose members have these alternatives. -/
def completeGroup (recursion : Recursion) (m : Multiplicity) (id : SymbolId)
    (alternatives : List (Alternative SymbolId)) : Drafting Unit :=
  if m.isRepeat then do
    let body ← repeatedBody alternatives
    Drafting.addRule id [recursion.extend id body, body]
  else Drafting.addRule id alternatives

mutual

/-- A token of the rule `owner` without groups. -/
def flattenToken (recursion : Recursion) (owner : SymbolId) :
    Token SymbolId → Drafting (Token SymbolId)
  | .literal p => pure (.literal p)
  | .reference t => pure (.reference t)
  | .group m members =>
    if members.isEmpty then Drafting.malformed owner .emptyGroup
    else match inlined? m members with
      | some t => pure t
      | none => do
        let id ← Drafting.newSymbol
        let marked ← flattenAll recursion id members
        completeGroup recursion m id (omissions marked)
        return .reference id

/-- The tokens of a sequence without groups, each with whether it may be left
out. -/
def flattenAll (recursion : Recursion) (owner : SymbolId) :
    List (Token SymbolId) → Drafting (List (Token SymbolId × Bool))
  | [] => pure []
  | t :: ts => do
    let flat ← flattenToken recursion owner t
    let rest ← flattenAll recursion owner ts
    return (flat, t.isNullable) :: rest

end

/-- The alternatives of the rule `owner` without groups, the variants behind
them. -/
def flattenRule (recursion : Recursion) (owner : SymbolId)
    (alternatives : List (Alternative SymbolId)) :
    Drafting (List (Alternative SymbolId)) :=
  if alternatives.isEmpty then Drafting.malformed owner .noAlternatives
  else do
    let marked ← alternatives.mapM (flattenAll recursion owner)
    return marked.map (·.map (·.1)) ++ marked.flatMap fun a =>
      (omissions a).tail

/-- All rules without groups. -/
def flattenRules (recursion : Recursion) (rules : Rules) : Drafting Rules :=
  rules.mapM fun (id, alternatives) => do
    let flat ← flattenRule recursion id alternatives
    return (id, flat)

/-- A grammar made plain, or why it cannot be, with the rules that were added on
the way. -/
structure Flattening where
  result : Except GrammarFault Grammar
  draft : Draft

namespace Grammar

/-- Replaces all groups. The new rules are put in at the end. -/
def flatten (g : Grammar) (recursion : Recursion) : Flattening :=
  match flattenRules recursion g.rules ⟨g.symbols, []⟩ with
  | .ok rules draft =>
    ⟨.ok { g with
      symbols := draft.symbols
      rules := rules.insertAll draft.created }, draft⟩
  | .error fault draft => ⟨.error fault, draft⟩

/-- The plain grammar that means the same. -/
def plain (g : Grammar) (recursion : Recursion) : Except GrammarFault Grammar :=
  (g.flatten recursion).result

/-- Makes a grammar plain in its place. The work is done on a copy, which is
dropped if there is a fault. -/
def makePlain (recursion : Recursion) :
    EStateM GrammarFault Grammar Unit := fun g =>
  match g.plain recursion with
  | .ok plain => .ok () plain
  | .error fault => .error fault g

end Grammar

/-- One record for each rule that was added. -/
def Flattening.records (f : Flattening) : List LogRecord :=
  f.draft.created.map fun (id, alternatives) =>
    ⟨.debug, "synthesized <" ++ nameIn f.draft.symbols id ++ "> with "
      ++ toString alternatives.length ++ " options"⟩

end Lexigram
