/-!
Tokens, the building blocks of a rule: literals, references to other symbols,
and groups. The type of references is a parameter: names in a text, numbers in a
grammar.
-/

namespace Lexigram

/-- How many times the members of a group may occur. -/
inductive Multiplicity where
  | one
  | optional
  | zeroOrMore
  | oneOrMore
  deriving Repr, DecidableEq

namespace Multiplicity

/-- The multiplicity a suffix character stands for. -/
def ofSuffix? : Char → Option Multiplicity
  | '?' => some optional
  | '*' => some zeroOrMore
  | '+' => some oneOrMore
  | _ => none

/-- The suffix of a group; a group that occurs once has none. -/
def suffix : Multiplicity → List Char
  | one => []
  | optional => ['?']
  | zeroOrMore => ['*']
  | oneOrMore => ['+']

/-- Whether no occurrence will do. -/
def isNullable : Multiplicity → Bool
  | optional | zeroOrMore => true
  | one | oneOrMore => false

/-- Whether there may be several occurrences. -/
def isRepeat : Multiplicity → Bool
  | zeroOrMore | oneOrMore => true
  | one | optional => false

/-- The name of such a group in an outline. -/
def label : Multiplicity → String
  | one => "GroupOne"
  | optional => "GroupOptional"
  | zeroOrMore => "GroupRepeatZeroOrMore"
  | oneOrMore => "GroupRepeatOneOrMore"

theorem ofSuffix?_eq_some_iff {c : Char} {m : Multiplicity} :
    ofSuffix? c = some m ↔ m.suffix = [c] := by
  constructor
  · intro h
    unfold ofSuffix? at h
    split at h <;> simp_all [suffix] <;> subst h <;> rfl
  · cases m <;> simp [suffix] <;> rintro rfl <;> rfl

end Multiplicity

/-- A token with references of type `ι`. -/
inductive Token (ι : Type) where
  /-- A terminal, matched by a pattern. -/
  | literal (pattern : String)
  /-- The symbol `target`, to be matched by its rule. -/
  | reference (target : ι)
  /-- The members in sequence, as often as `times` has it. -/
  | group (times : Multiplicity) (members : List (Token ι))
  deriving Repr, Inhabited

/-- One way to match a rule: its tokens in sequence. -/
abbrev Alternative (ι : Type) := List (Token ι)

namespace Token

variable {ι κ : Type}

mutual

/-- Equality of tokens, decided along their structure. -/
def decEq [DecidableEq ι] : (t u : Token ι) → Decidable (t = u)
  | .literal p, .literal q =>
    if h : p = q then isTrue (h ▸ rfl) else isFalse fun e =>
      h (Token.literal.inj e)
  | .reference a, .reference b =>
    if h : a = b then isTrue (h ▸ rfl) else isFalse fun e =>
      h (Token.reference.inj e)
  | .group m ts, .group n us =>
    if h : m = n then
      match decEqAll ts us with
      | isTrue e => isTrue (h ▸ e ▸ rfl)
      | isFalse e => isFalse fun f => e (Token.group.inj f).2
    else isFalse fun f => h (Token.group.inj f).1
  | .literal _, .reference _ | .literal _, .group _ _ | .reference _, .literal _
  | .reference _, .group _ _ | .group _ _, .literal _
  | .group _ _, .reference _ => isFalse nofun

/-- Equality of lists of tokens. -/
def decEqAll [DecidableEq ι] : (ts us : List (Token ι)) → Decidable (ts = us)
  | [], [] => isTrue rfl
  | [], _ :: _ | _ :: _, [] => isFalse nofun
  | t :: ts, u :: us =>
    match decEq t u, decEqAll ts us with
    | isTrue h, isTrue e => isTrue (h ▸ e ▸ rfl)
    | isFalse h, _ => isFalse fun f => h (List.cons.inj f).1
    | _, isFalse e => isFalse fun f => e (List.cons.inj f).2

end

instance [DecidableEq ι] : DecidableEq (Token ι) := decEq

/-- Whether the token is a group. -/
def isGroup : Token ι → Bool
  | .group _ _ => true
  | _ => false

/-- The members of a group; literals and references have none. -/
def members : Token ι → List (Token ι)
  | .group _ ts => ts
  | _ => []

/-- Whether the token is a group that may be left out. -/
def isNullable : Token ι → Bool
  | .group m _ => m.isNullable
  | _ => false

mutual

/-- The token with every reference replaced. -/
def map (f : ι → κ) : Token ι → Token κ
  | .literal p => .literal p
  | .reference t => .reference (f t)
  | .group m ts => .group m (mapAll f ts)

/-- The tokens with every reference replaced. -/
def mapAll (f : ι → κ) : List (Token ι) → List (Token κ)
  | [] => []
  | t :: ts => map f t :: mapAll f ts

end

mutual

/-- The token and all tokens inside it, members before their group. -/
def postorder : Token ι → List (Token ι)
  | .group m ts => postorderAll ts ++ [.group m ts]
  | t => [t]

/-- The tokens of a sequence and all tokens inside them. -/
def postorderAll : List (Token ι) → List (Token ι)
  | [] => []
  | t :: ts => postorder t ++ postorderAll ts

end

/-- What the token refers to. -/
def target? : Token ι → Option ι
  | .reference t => some t
  | _ => none

/-- The targets of all references in a sequence, in the order they stand in. -/
def targets (ts : List (Token ι)) : List ι :=
  (postorderAll ts).filterMap target?

/-- Whether the token or one inside it refers to `target`. -/
def mentions [DecidableEq ι] (t : Token ι) (target : ι) : Bool :=
  t.postorder.any fun u => u.target? = some target

@[simp] theorem mapAll_eq_map (f : ι → κ) (ts : List (Token ι)) :
    mapAll f ts = ts.map (map f) := by
  induction ts with
  | nil => rfl
  | cons t ts ih => simp [mapAll, ih]

@[simp] theorem postorderAll_eq_flatMap (ts : List (Token ι)) :
    postorderAll ts = ts.flatMap postorder := by
  induction ts with
  | nil => rfl
  | cons t ts ih => simp [postorderAll, ih]

end Token

end Lexigram
