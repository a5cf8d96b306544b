import Mathlib.Logic.Function.Basic
import Lexigram.Proofs.Lexis.References
import Lexigram.Proofs.Lexis.Standalone

/-!
Visits with marks. The fragment of a rule can be made with one table of marks
that all visits share: a visit marks its rule, goes through the references of
the rule and clears the mark, whether it has made the fragment or met a fault; a
rule that is marked already is left at once. Nothing in these actions says how
far references lead, so they are given for a depth, the number of visits that
may be under way at once, and have no result where it does not suffice. But a
depth above the number of rules always does: each visit ends, makes what
`Grammar.fragmentFrom` makes for the path of marked rules, and leaves the marks
as they were (`Grammar.visit_eq_fragmentFrom`). So a lexicon all of whose
fragments are made with the same marks is the one for which each is made with
marks of its own (`Grammar.visits_leave_no_trace`).
-/

namespace Lexigram

/-- Which rules are marked: those on the path of references that a visit has
taken. -/
abbrev Marks := SymbolId → Bool

/-- No rule is marked. -/
def unmarked : Marks := fun _ => false

/-- An action that reads and changes the marks. It has no result if the depth
does not suffice. -/
abbrev Marking := StateT Marks Option

/-- An action on the marks that makes something or meets a fault. The marks
outlast a fault. -/
abbrev Visiting := ExceptT AssemblyFault Marking

/-- What is done with the rule of a symbol that is referred to. -/
abbrev Following :=
  SymbolId → List (Alternative SymbolId) → Visiting (List Char)

namespace Grammar

/-! ## Visits -/

mutual

/-- Makes the fragment of a token. A reference is followed to its rule. -/
def visitToken (g : Grammar) (follow : Following) (owner : SymbolId) :
    Token SymbolId → Visiting (List Char)
  | .literal p => return p.toList
  | .reference target =>
    match g.rule? target with
    | some as => follow target as
    | none =>
      throw (.undefinedRule owner (g.nameOf owner) target (g.nameOf target))
  | .group m ts => do
    let inside ← visitSequence g follow owner (ts.length > 1) ts
    return wrapped inside ++ m.suffix

/-- Makes the fragments of the tokens of a sequence. -/
def visitSequence (g : Grammar) (follow : Following) (owner : SymbolId)
    (several : Bool) :
    List (Token SymbolId) → Visiting (List Char)
  | [] => return []
  | t :: ts => do
    let first ← visitToken g follow owner t
    let rest ← visitSequence g follow owner several ts
    return (if several then spliced first else first) ++ rest

end

/-- Makes the fragments of alternatives, bars between them. -/
def visitChoice (g : Grammar) (follow : Following) (owner : SymbolId)
    (as : List (Alternative SymbolId)) :
    Visiting (List Char) := do
  let parts ← as.mapM fun a => g.visitSequence follow owner (a.length > 1) a
  return ['|'].intercalate parts

/-- Makes the fragment of a rule that has been marked. -/
def visitMarked (g : Grammar) (follow : Following) (id : SymbolId)
    (as : List (Alternative SymbolId)) : Visiting (List Char) :=
  match singleLiteral? as with
  | some p => return p.toList
  | none =>
    match repetitionParts? id as with
    | some (side, repeated, base) => do
      let repeated := wrapped (← g.visitChoice follow id repeated) ++ ['*']
      let base := wrapped (← g.visitChoice follow id base)
      return match side with
        | .right => repeated ++ base
        | .left => base ++ repeated
    | none => return wrapped (← g.visitChoice follow id as)

/-- Makes the fragment of a rule, unless the rule is marked. The mark is cleared
after a fault, too. -/
def visitRule (g : Grammar) (follow : Following) : Following := fun id as =>
  show Marking (Except AssemblyFault (List Char)) from do
    if (← get) id then return .ok []
    modify fun marks => Function.update marks id true
    let made ← (g.visitMarked follow id as).run
    modify fun marks => Function.update marks id false
    return made

/-- Visits a rule, with at most `depth` visits under way at once. -/
def visit (g : Grammar) : (depth : Nat) → Following
  | 0 => fun _ _ _ => none
  | depth + 1 => g.visitRule (g.visit depth)

/-! ## Lexicons with shared marks -/

/-- Makes the fragment of a symbol's rule, as text. -/
def visitText (g : Grammar) (depth : Nat) (id : SymbolId) : Visiting String :=
  match g.rule? id with
  | some as => return String.ofList (← g.visit depth id as)
  | none => throw (.refused (.noRule (g.nameOf id)))

/-- Makes the fragment of a reserved symbol, which has to have a rule. -/
def visitSpecial (g : Grammar) (depth : Nat) (id : SymbolId) :
    Visiting String :=
  if (g.rule? id).isSome then g.visitText depth id
  else throw (.missingSpecialRule id (g.nameOf id))

/-- Makes the pattern of white space. -/
def visitWhitespace (g : Grammar) (depth : Nat) (reserved : Reserved) :
    Visiting String := do
  let pattern ← match g.id? reserved.whitespace with
    | some id => g.visitSpecial depth id
    | none => pure defaultWhitespace
  if (← liftExcept (compilePart (anchored pattern))).matchesIn [] then
    throw (.refused (.matchesEmpty reserved.whitespace))
  else return pattern

/-- Makes the rule of a reserved symbol. -/
def visitConfigurationRule (g : Grammar) (depth : Nat) (kind : TokenKind) :
    Visiting LexicalRule := do
  liftExcept (LexicalRule.compile kind (← g.visitSpecial depth kind.id))

/-- Makes the rule of a kind of token, which may not match the empty text. -/
def visitTokenRule (g : Grammar) (depth : Nat) (kind : TokenKind) :
    Visiting LexicalRule := do
  let rule ← liftExcept (LexicalRule.compile kind (← g.visitText depth kind.id))
  if rule.matchesWhole "" then throw (.refused (.matchesEmpty kind.name))
  else return rule

/-- Makes the parts of a lexicon, all fragments with the same marks. -/
def visitParts (g : Grammar) (depth : Nat) (options : LexiconOptions) :
    Visiting LexiconParts := do
  let whitespace ← g.visitWhitespace depth options.reserved
  let configuration ← (g.configurationKinds options.reserved).mapM
    (g.visitConfigurationRule depth)
  let rules ← (g.tokenKinds options.reserved).mapM (g.visitTokenRule depth)
  if rules.isEmpty then throw (.refused .noTokenRules)
  let alone ← liftExcept (compilePart whitespace)
  return {
    whitespace, configuration, rules
    whitespaceGroups := alone.groups - 1
    fallback := options.fallback }

/-- Makes a lexicon, all fragments with the same marks. -/
def visitLexicon (g : Grammar) (depth : Nat) (options : LexiconOptions) :
    Visiting Lexicon := do
  liftExcept (← g.visitParts depth options).lexicon

end Grammar

/-! ## What visits make, and what they leave -/

/-- With these marks the action ends, comes to `r` and leaves the marks as they
were. -/
def Restores {α : Type} (marks : Marks) (x : Visiting α)
    (r : Except AssemblyFault α) : Prop :=
  x marks = some (r, marks)

namespace Restores

variable {α β : Type} {marks : Marks} {x : Visiting α}
  {r : Except AssemblyFault α}

theorem pure (a : α) : Restores marks (pure a) (.ok a) := rfl

theorem throw (fault : AssemblyFault) :
    Restores marks (throw fault : Visiting α) (.error fault) := rfl

theorem lift (r : Except AssemblyFault α) :
    Restores marks (liftExcept r) r := by
  cases r with
  | error fault => rfl
  | ok a => rfl

/-- One action after the other; the second is left out after a fault. -/
theorem bind {f : α → Visiting β} {s : α → Except AssemblyFault β}
    (first : Restores marks x r) (rest : ∀ a, Restores marks (f a) (s a)) :
    Restores marks (x >>= f) (r >>= s) := by
  show (x marks).bind (fun p => ExceptT.bindCont f p.1 p.2)
    = some (r >>= s, marks)
  rw [show x marks = some (r, marks) from first]
  cases r with
  | error fault => rfl
  | ok a => exact rest a

/-- A check that may come to a fault. -/
theorem check (c : Prop) [Decidable c] (fault : AssemblyFault)
    (otherwise : Restores marks x r) :
    Restores marks (if c then MonadExcept.throw fault else x)
      (if c then .error fault else r) := by
  split
  · exact throw fault
  · exact otherwise

theorem mapM {f : α → Visiting β} {s : α → Except AssemblyFault β}
    (each : ∀ a, Restores marks (f a) (s a)) (as : List α) :
    Restores marks (as.mapM f) (as.mapM s) := by
  induction as with
  | nil => exact pure []
  | cons a as ih =>
    rw [List.mapM_cons, List.mapM_cons]
    exact (each a).bind fun b => ih.bind fun bs => pure (b :: bs)

end Restores

namespace Grammar

variable {g : Grammar} {marks : Marks} {visiting : List SymbolId}
  {id owner : SymbolId} {follow : Following} {depth : Nat}

/-- Whether following a reference makes what `fragmentFrom` makes for the path
`visiting`, and restores the marks. -/
def FollowsAs (g : Grammar) (follow : Following) (marks : Marks)
    (visiting : List SymbolId) : Prop :=
  ∀ id as, g.rule? id = some as →
    Restores marks (follow id as) (g.fragmentFrom visiting id)

theorem restores_token_reference (follows : g.FollowsAs follow marks visiting)
    (target : SymbolId) :
    Restores marks (g.visitToken follow owner (.reference target))
      (g.expansion visiting owner target) := by
  rw [visitToken]
  cases rule : g.rule? target with
  | none =>
    rw [expansion_of_eq_none rule]
    exact .throw _
  | some as =>
    rw [expansion_of_isSome (by simp [rule])]
    exact follows target as rule

/-- The tokens of a sequence are gone through one by one, those of a group
before the rest. -/
theorem restores_sequence (follows : g.FollowsAs follow marks visiting)
    (several : Bool) (ts : Alternative SymbolId) :
    Restores marks (g.visitSequence follow owner several ts)
      (Token.fragmentAll (g.expansion visiting owner) several ts) := by
  induction ts using Token.sequence_induction generalizing several with
  | nil =>
    rw [visitSequence]
    exact .pure _
  | literal p ts ih =>
    rw [visitSequence, visitToken, Token.fragmentAll, Token.fragment]
    exact (Restores.pure _).bind fun first =>
      (ih several).bind fun rest => .pure _
  | reference target ts ih =>
    rw [visitSequence, Token.fragmentAll, Token.fragment]
    exact (restores_token_reference follows target).bind fun first =>
      (ih several).bind fun rest => .pure _
  | group m members ts inside ih =>
    rw [visitSequence, visitToken, Token.fragmentAll, Token.fragment]
    have grouped := (inside (members.length > 1)).bind fun cs =>
      Restores.pure (wrapped cs ++ m.suffix)
    exact grouped.bind fun first => (ih several).bind fun rest => .pure _

theorem restores_choice (follows : g.FollowsAs follow marks visiting)
    (as : List (Alternative SymbolId)) :
    Restores marks (g.visitChoice follow owner as)
      (choiceFragment (g.expansion visiting owner) as) := by
  rw [visitChoice, choiceFragment]
  exact (Restores.mapM (fun a => restores_sequence follows _ a) as).bind
    fun parts => .pure _

/-- The references of a rule are followed as they are for its fragment. -/
theorem restores_marked (follows : g.FollowsAs follow marks visiting)
    (as : List (Alternative SymbolId)) :
    Restores marks (g.visitMarked follow id as)
      (ruleFragment (g.expansion visiting id) id as) := by
  rw [visitMarked, ruleFragment]
  cases singleLiteral? as with
  | some p => exact .pure _
  | none =>
    cases repetitionParts? id as with
    | none => exact (restores_choice follows as).bind fun cs => .pure _
    | some parts =>
      obtain ⟨side, repeated, base⟩ := parts
      exact (restores_choice follows repeated).bind fun first =>
        (restores_choice follows base).bind fun last => .pure _

theorem visitRule_of_marked (as : List (Alternative SymbolId))
    (visited : marks id = true) :
    Restores marks (g.visitRule follow id as) (.ok []) := by
  show (if marks id = true then pure (.ok []) else _ :
    Marking (Except AssemblyFault (List Char))) marks = _
  rw [if_pos visited]
  rfl

/-- A visit of a rule without a mark has it while the references of the rule are
followed, and only then. -/
theorem visitRule_of_fresh {as : List (Alternative SymbolId)}
    {r : Except AssemblyFault (List Char)} (fresh : marks id = false)
    (restores : Restores (Function.update marks id true)
      (g.visitMarked follow id as) r) :
    Restores marks (g.visitRule follow id as) r := by
  have clear : Function.update (Function.update marks id true) id false
      = marks := by
    rw [Function.update_idem, ← fresh, Function.update_eq_self]
  have ran : g.visitMarked follow id as (Function.update marks id true) =
      some (r, Function.update marks id true) := restores
  show (if marks id = true then _ else _ :
    Marking (Except AssemblyFault (List Char))) marks = _
  rw [if_neg (by simp [fresh])]
  show (g.visitMarked follow id as (Function.update marks id true)).bind
    (fun made => some (made.1, Function.update made.2 id false))
    = some (r, marks)
  rw [ran, Option.bind_some, clear]

/-- A visit ends if the depth is above the number of rules off the path. It
makes what `fragmentFrom` makes for the path of marked rules, and restores the
marks. -/
theorem follows_visit
    (agree : ∀ k, (g.rule? k).isSome = true → marks k = visiting.contains k)
    (enough : g.unvisited visiting < depth) :
    g.FollowsAs (g.visit depth) marks visiting := by
  -- inside a visit there is one more rule on the path, and one less to visit
  induction depth generalizing marks visiting with
  | zero => exact absurd enough (Nat.not_lt_zero _)
  | succ depth ih =>
    intro id as rule
    have own : marks id = visiting.contains id := agree id (by simp [rule])
    rw [visit]
    cases fresh : visiting.contains id with
    | true =>
      rw [fragmentFrom_of_visited fresh]
      exact visitRule_of_marked as (own.trans fresh)
    | false =>
      have inside : ∀ k, (g.rule? k).isSome = true →
          Function.update marks id true k = (id :: visiting).contains k := by
        intro k defined
        by_cases same : k = id
        · simp [same]
        · simp [same, agree k defined]
      have less := unvisited_cons_lt rule fresh
      have follows := ih inside (by omega)
      rw [fragmentFrom_eq rule fresh]
      exact visitRule_of_fresh (own.trans fresh) (restores_marked follows as)

theorem unvisited_le (g : Grammar) (visiting : List SymbolId) :
    g.unvisited visiting ≤ g.rules.length :=
  List.length_filter_le _ _

/-- From any marks on, a visit of a rule ends and restores them: rules alone are
looked up in the marks, so those that are marked make up a path. -/
theorem visit_eq_fragmentFrom (marks : Marks) (enough : g.rules.length < depth)
    {as : List (Alternative SymbolId)} (rule : g.rule? id = some as) :
    g.visit depth id as marks = some
      (g.fragmentFrom (g.rules.keys.filter marks) id, marks) := by
  have path : ∀ k, (g.rule? k).isSome = true →
      marks k = (g.rules.keys.filter marks).contains k := by
    intro k defined
    obtain ⟨as, found⟩ := Option.isSome_iff_exists.mp defined
    have key : k ∈ Table.keys g.rules :=
      List.mem_map_of_mem (Table.mem_of_find? found)
    cases mark : marks k with
    | true => simp [key, mark]
    | false => simp [mark]
  exact follows_visit path (Nat.lt_of_le_of_lt (g.unvisited_le _) enough)
    id as rule

/-! ## Fragments with fresh marks and with shared ones -/

theorem fragmentText_of_specialFragment {text : String}
    (made : g.specialFragment id = .ok text) :
    g.fragmentText id = .ok text := by
  rw [specialFragment] at made
  split at made
  · exact made
  · cases made

/-- The pattern of white space is the fragment of the rule for it, if the
grammar has such a symbol. -/
theorem source_of_whitespacePattern {reserved : Reserved} {pattern : String}
    (made : g.whitespacePattern reserved = .ok pattern) :
    match g.id? reserved.whitespace with
    | some id => g.fragmentText id = .ok pattern
    | none => pattern = defaultWhitespace := by
  have checked {text : String}
      (h : (compilePart (anchored text) >>= fun whole =>
        if whole.matchesIn [] then
          .error (.refused (.matchesEmpty reserved.whitespace))
        else pure text) = .ok pattern) :
      text = pattern := by
    obtain ⟨whole, -, h⟩ := Pattern.bind_ok_iff.mp h
    split at h
    · cases h
    · exact Except.ok.inj h
  rw [whitespacePattern] at made
  cases named : g.id? reserved.whitespace with
  | none =>
    rw [named] at made
    obtain ⟨text, taken, made⟩ := Pattern.bind_ok_iff.mp made
    cases taken
    exact (checked made).symm
  | some id =>
    rw [named] at made
    obtain ⟨text, special, made⟩ := Pattern.bind_ok_iff.mp made
    exact checked made ▸ fragmentText_of_specialFragment special

section Enough

variable (enough : g.rules.length < depth)

include enough

theorem restores_text (id : SymbolId) :
    Restores unmarked (g.visitText depth id) (g.fragmentText id) := by
  have follows : g.FollowsAs (g.visit depth) unmarked [] :=
    follows_visit (fun k _ => by simp [unmarked])
      (Nat.lt_of_le_of_lt (g.unvisited_le []) enough)
  rw [visitText, fragmentText, fragment]
  cases rule : g.rule? id with
  | none =>
    rw [fragmentFrom_of_none rule List.contains_nil]
    exact .throw _
  | some as =>
    have made :=
      (follows id as rule).bind fun cs => Restores.pure (String.ofList cs)
    cases result : g.fragmentFrom [] id with
    | error fault => exact result ▸ made
    | ok cs => exact result ▸ made

theorem restores_special (id : SymbolId) :
    Restores unmarked (g.visitSpecial depth id) (g.specialFragment id) := by
  rw [visitSpecial, specialFragment]
  split
  · exact restores_text enough id
  · exact .throw _

theorem restores_whitespace (reserved : Reserved) :
    Restores unmarked (g.visitWhitespace depth reserved)
      (g.whitespacePattern reserved) := by
  rw [visitWhitespace, whitespacePattern]
  cases g.id? reserved.whitespace with
  | none =>
    exact (Restores.pure _).bind fun pattern =>
      (Restores.lift _).bind fun whole => .check _ _ (.pure _)
  | some id =>
    exact (restores_special enough id).bind fun pattern =>
      (Restores.lift _).bind fun whole => .check _ _ (.pure _)

theorem restores_configurationRule (kind : TokenKind) :
    Restores unmarked (g.visitConfigurationRule depth kind)
      (g.configurationRule kind) :=
  (restores_special enough kind.id).bind fun _ => .lift _

theorem restores_tokenRule (kind : TokenKind) :
    Restores unmarked (g.visitTokenRule depth kind) (g.tokenRule kind) :=
  (restores_text enough kind.id).bind fun _ =>
    (Restores.lift _).bind fun _ => .check _ _ (.pure _)

theorem restores_parts (options : LexiconOptions) :
    Restores unmarked (g.visitParts depth options)
      (LexiconParts.ofGrammar g options) := by
  rw [visitParts, LexiconParts.ofGrammar]
  refine (restores_whitespace enough options.reserved).bind fun whitespace => ?_
  refine (Restores.mapM (restores_configurationRule enough) _).bind
    fun configuration => ?_
  refine (Restores.mapM (restores_tokenRule enough) _).bind fun rules => ?_
  have single : Restores unmarked (liftExcept (compilePart whitespace))
    (compilePart whitespace) := .lift _
  have rest := single.bind fun alone => Restores.pure (LexiconParts.mk
    whitespace (alone.groups - 1) configuration rules options.fallback)
  dsimp only
  split
  · exact (Restores.throw _).bind fun _ => rest
  · exact rest

/-- One table of marks will do for a whole lexicon. -/
theorem restores_lexicon (options : LexiconOptions) :
    Restores unmarked (g.visitLexicon depth options)
      (Lexicon.ofGrammar g options) :=
  (restores_parts enough options).bind fun _ => .lift _

end Enough

/-- **Visits leave no trace.** Visits need no more depth than one for each rule
and one for a rule that is marked already, whatever the references of the
grammar lead to. From any marks on, a visit then ends and restores the marks,
with a fragment or a fault. So if all fragments for a lexicon are made with the
same marks, each fragment in it, and its pattern of white space, is what a visit
with fresh marks makes of the same rule. -/
theorem visits_leave_no_trace (g : Grammar) {depth : Nat}
    (enough : g.rules.length < depth) :
    (∀ marks id as, g.rule? id = some as → g.visit depth id as marks
      = some (g.fragmentFrom (g.rules.keys.filter marks) id, marks)) ∧
      (∀ id, g.visitText depth id unmarked = some (g.fragmentText id, unmarked))
      ∧ ∀ options, g.visitLexicon depth options unmarked
      = some (Lexicon.ofGrammar g options, unmarked) ∧
        ∀ c, g.visitLexicon depth options unmarked = some (.ok c, unmarked) →
          (∀ r ∈ c.rules ++ c.configuration, g.visitText depth r.kind.id
            unmarked = some (.ok r.fragment, unmarked)) ∧
            match g.id? options.reserved.whitespace with
            | some id =>
              g.visitText depth id unmarked = some (.ok c.whitespace, unmarked)
            | none => c.whitespace = defaultWhitespace := by
  have fresh {id : SymbolId} {text : String}
    (made : g.fragmentText id = .ok text) :
      g.visitText depth id unmarked = some (.ok text, unmarked) :=
    made ▸ restores_text enough id
  refine ⟨fun marks id as => visit_eq_fragmentFrom marks enough,
    restores_text enough, ?_⟩
  intro options
  have lexicon : g.visitLexicon depth options unmarked
      = some (Lexicon.ofGrammar g options, unmarked) :=
    restores_lexicon enough options
  refine ⟨lexicon, ?_⟩
  intro c visited
  have made : Lexicon.ofGrammar g options = .ok c := by
    rw [lexicon] at visited
    exact congrArg Prod.fst (Option.some.inj visited)
  constructor
  · intro r mem
    apply fresh
    rcases List.mem_append.mp mem with token | configuration
    · exact (Lexicon.lists_of_ofGrammar made).fragments r token
    · have own := (Lexicon.configuration_of_ofGrammar made).2 r configuration
      exact fragmentText_of_specialFragment (of_configurationRule own).2.1
  · have source :=
      source_of_whitespacePattern (Lexicon.lists_of_ofGrammar made).whitespace
    cases named : g.id? options.reserved.whitespace with
    | none =>
      rw [named] at source
      exact source
    | some id =>
      rw [named] at source
      exact fresh source

end Grammar

/-- Two rules that refer to each other, one of them to itself, too, and to a
symbol without a rule. -/
def crossing : Grammar where
  symbols := [⟨"a", false⟩, ⟨"b", false⟩, ⟨"c", false⟩]
  rules := [(0, [[.literal "x", .reference 1], [.literal "y"]]),
    (1, [[.reference 0, .reference 1], [.reference 2]])]
  parameters := []
  start := none

/-- A visit of the first rule from within the second makes a fragment; a visit
of the second meets a fault, and restores the marks as well. -/
theorem crossing_restored : crossing.rules.length < 3 ∧
    crossing.rule? 0 = some [[.literal "x", .reference 1], [.literal "y"]] ∧
    crossing.visit 3 0 [[.literal "x", .reference 1], [.literal "y"]]
    (Function.update unmarked 1 true)
      = some (.ok "(?:x|y)".toList, Function.update unmarked 1 true) ∧
    crossing.visitText 3 1 unmarked
    = some (.error (.undefinedRule 1 "b" 2 "c"), unmarked) := by
  have enough : crossing.rules.length < 3 := by decide
  have rule : crossing.rule? 0 = some
    [[.literal "x", .reference 1], [.literal "y"]] := rfl
  have path : crossing.rules.keys.filter (Function.update unmarked 1 true)
    = [1] := by decide
  have fragment : crossing.fragmentFrom [1] 0 = .ok "(?:x|y)".toList := by
    decide +kernel
  have fault : crossing.fragmentText 1
    = .error (.undefinedRule 1 "b" 2 "c") := by decide +kernel
  have visits := Grammar.visits_leave_no_trace crossing enough
  refine ⟨enough, rule, ?_, ?_⟩
  · rw [visits.1 _ 0 _ rule, path, fragment]
  · rw [visits.2.1 1, fault]

end Lexigram
