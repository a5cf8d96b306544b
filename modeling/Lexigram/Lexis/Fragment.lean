import Lexigram.Grammar.Plain
import Lexigram.Lexis.Fault

/-!
Fragments. The fragment of a rule is a pattern for what the rule derives.
References are replaced by the fragments of their rules; a rule all of whose
references to itself stand at one end of their alternatives becomes a
repetition, and any other reference to a rule whose fragment is being made
becomes the empty text.
-/

namespace Lexigram

/-- Whether a bar stands outside all groups and classes of a pattern. Outside
classes parentheses count as groups, a backslash takes the next character along,
and classes are not nested. -/
def hasOuterBarFrom (depth : Nat) (inClass : Bool) : List Char → Bool
  | [] => false
  | ['\\'] => false
  | '\\' :: _ :: cs => hasOuterBarFrom depth inClass cs
  | c :: cs =>
    if inClass then hasOuterBarFrom depth (c != ']') cs
    else if c = '[' then hasOuterBarFrom depth true cs
    else if c = '(' then hasOuterBarFrom (depth + 1) false cs
    else if c = ')' then hasOuterBarFrom (depth - 1) false cs
    else if c = '|' ∧ depth = 0 then true
    else hasOuterBarFrom depth false cs

/-- Whether a bar stands outside all groups and classes of a pattern. -/
def hasOuterBar (pattern : List Char) : Bool :=
  hasOuterBarFrom 0 false pattern

/-- A pattern as a group that records nothing. -/
def wrapped (pattern : List Char) : List Char :=
  ['(', '?', ':'] ++ pattern ++ [')']

/-- A pattern as it stands in a sequence of several: its alternatives are kept
together. -/
def spliced (pattern : List Char) : List Char :=
  if hasOuterBar pattern then wrapped pattern else pattern

/-- What a reference is replaced by. -/
abbrev Expansion := SymbolId → Except AssemblyFault (List Char)

namespace Token

mutual

/-- The fragment of a token. -/
def fragment (expand : Expansion) :
    Token SymbolId → Except AssemblyFault (List Char)
  | .literal p => .ok p.toList
  | .reference t => expand t
  | .group m ts => do
    let inside ← fragmentAll expand (ts.length > 1) ts
    return wrapped inside ++ m.suffix

/-- The fragments of the tokens of a sequence, one after the other. -/
def fragmentAll (expand : Expansion) (several : Bool) :
    List (Token SymbolId) → Except AssemblyFault (List Char)
  | [] => .ok []
  | t :: ts => do
    let first ← fragment expand t
    let rest ← fragmentAll expand several ts
    return (if several then spliced first else first) ++ rest

end

end Token

/-- The fragment of an alternative. -/
def Alternative.fragment (expand : Expansion) (a : Alternative SymbolId) :
    Except AssemblyFault (List Char) :=
  Token.fragmentAll expand (a.length > 1) a

/-- The fragments of alternatives, bars between them. -/
def choiceFragment (expand : Expansion) (as : List (Alternative SymbolId)) :
    Except AssemblyFault (List Char) := do
  let parts ← as.mapM (Alternative.fragment expand)
  return ['|'].intercalate parts

/-- Whether the alternative refers to `id` anywhere. -/
def Alternative.mentions (a : Alternative SymbolId) (id : SymbolId) : Bool :=
  a.any (·.mentions id)

/-- The end at which an alternative refers to `id`, and what stands beside the
reference and does not mention `id`. -/
def selfReference? (id : SymbolId) (a : Alternative SymbolId) :
    Option (Recursion × Alternative SymbolId) :=
  if a.getLast? = some (.reference id) ∧
      !Alternative.mentions a.dropLast id then
    if a.dropLast.isEmpty then none else some (.right, a.dropLast)
  else if a.head? = some (.reference id) ∧ !Alternative.mentions a.tail id then
    if a.tail.isEmpty then none else some (.left, a.tail)
  else none

/-- The parts of a rule that is a repetition: the end of its references to
itself, what is repeated, and the alternatives that do not mention the rule. -/
def repetitionParts? (id : SymbolId) (as : List (Alternative SymbolId)) :
    Option (Recursion × List (Alternative SymbolId)
      × List (Alternative SymbolId)) := do
  let base := as.filter fun a => !Alternative.mentions a id
  let repeated ← (as.filter fun a => Alternative.mentions a id).mapM
    (selfReference? id)
  match repeated with
  | [] => none
  | (side, _) :: _ =>
    if repeated.all (·.1 = side) ∧ !base.isEmpty then
      some (side, repeated.map (·.2), base)
    else none

/-- The fragment of the rule `id`, given what references are replaced by. -/
def ruleFragment (expand : Expansion) (id : SymbolId)
    (as : List (Alternative SymbolId)) : Except AssemblyFault (List Char) :=
  match singleLiteral? as with
  | some p => .ok p.toList
  | none =>
    match repetitionParts? id as with
    | some (side, repeated, base) => do
      let repeated := wrapped (← choiceFragment expand repeated) ++ ['*']
      let base := wrapped (← choiceFragment expand base)
      return match side with
        | .right => repeated ++ base
        | .left => base ++ repeated
    | none => do return wrapped (← choiceFragment expand as)

namespace Grammar

/-- How many rules are not being visited. -/
def unvisited (g : Grammar) (visiting : List SymbolId) : Nat :=
  (g.rules.filter fun rule => !visiting.contains rule.1).length

theorem mem_of_find?_eq_some {κ α : Type} [DecidableEq κ] {t : Table κ α}
    {k : κ} {v : α} (h : t.find? k = some v) : (k, v) ∈ t := by
  induction t with
  | nil => cases h
  | cons entry rest ih =>
    rw [Table.find?] at h
    split at h
    · next same =>
      cases h
      exact same ▸ List.mem_cons_self
    · exact List.mem_cons_of_mem _ (ih h)

/-- A rule that is visited next is one less to visit. -/
theorem unvisited_cons_lt {g : Grammar} {visiting : List SymbolId}
    {id : SymbolId} {as : List (Alternative SymbolId)}
    (rule : g.rule? id = some as) (fresh : visiting.contains id = false) :
    g.unvisited (id :: visiting) < g.unvisited visiting := by
  have here : (id, as) ∈ g.rules.filter fun rule =>
      !visiting.contains rule.1 := by
    simpa using ⟨mem_of_find?_eq_some rule, by simpa using fresh⟩
  have split : (g.rules.filter fun rule => !(id :: visiting).contains rule.1)
      = (g.rules.filter fun rule => !visiting.contains rule.1).filter
      fun rule => rule.1 != id := by
    rw [List.filter_filter]
    congr 1
    funext rule
    by_cases same : rule.1 = id <;> simp [same]
  unfold unvisited
  rw [split]
  refine Nat.lt_of_le_of_ne (List.length_filter_le _ _) fun same => ?_
  have := (List.length_filter_eq_length_iff.mp same) _ here
  simp at this

/-- The fragment of the rule of `id`; the rules in `visiting` are those on the
path of references to it. -/
def fragmentFrom (g : Grammar) (visiting : List SymbolId) (id : SymbolId) :
    Except AssemblyFault (List Char) :=
  if fresh : visiting.contains id = false then
    match rule : g.rule? id with
    | none => .error (.refused (.noRule (g.nameOf id)))
    | some as =>
      have := unvisited_cons_lt rule fresh
      ruleFragment
        (fun target =>
          if (g.rule? target).isSome then fragmentFrom g (id :: visiting) target
          else .error (.undefinedRule id (g.nameOf id) target
            (g.nameOf target)))
        id as
  else .ok []
termination_by g.unvisited visiting

/-- The fragment of a symbol's rule. -/
def fragment (g : Grammar) (id : SymbolId) : Except AssemblyFault (List Char) :=
  g.fragmentFrom [] id

end Grammar

end Lexigram
