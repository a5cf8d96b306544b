import Mathlib.Data.Set.Insert
import Lexigram.Proofs.Pattern.Embedding
import Lexigram.Proofs.Pattern.Extents

/-!
Patterns by the classes and the names of groups in them, where blanks count
(`ReadsWith`). The start of a group is one of four kinds of texts
(`exists_of_readGroup`), and a pattern is a choice only if a bar has been read
outside all groups (`Progress.finish_ne`).
-/

namespace Lexigram.Pattern

/-! ## The start of a group -/

/-- Flags have no marks and end in front of a colon or of a closing
parenthesis. -/
theorem exists_of_readFlags {f g : Flags} {seen : List Char} {value : Bool}
    {cs rest : List Char} (ok : f.read seen value cs = .ok (g, rest)) :
    ∃ text c behind, cs = text ++ c :: behind ∧ rest = c :: behind ∧
      IsPlain text ∧ (c = ':' ∨ c = ')') := by
  induction cs generalizing f seen value with
  | nil => cases ok
  | cons c cs ih =>
    have behind {g' : Flags} {seen' : List Char} {value' : Bool}
        (letter : c ∉ marks) (ok : g'.read seen' value' cs = .ok (g, rest)) :
        ∃ text d behind, c :: cs = text ++ d :: behind ∧ rest = d :: behind ∧
          IsPlain text ∧
          (d = ':' ∨ d = ')') := by
      obtain ⟨text, d, behind, rfl, left, kind, stop⟩ := ih ok
      exact ⟨c :: text, d, behind, rfl, left, kind.cons letter, stop⟩
    simp only [Flags.read] at ok
    split at ok
    · next stop =>
      split at ok
      · cases ok
      · cases ok
        exact ⟨[], c, cs, rfl, rfl, .nil, stop⟩
    · split at ok
      · cases ok
      · split at ok
        · next hyphen => exact behind (hyphen ▸ by decide) ok
        · split at ok
          · next set =>
            refine behind (fun mark => ?_) ok
            have none : ∀ c ∈ marks, f.set? value c = none := by
              simp [marks, Flags.set?]
            rw [none c mark] at set
            cases set
          · cases ok

/-- Whether a text can be the name of a group. -/
def IsGroupName : List Char → Prop
  | [] => False
  | first :: others =>
    isGroupNameChar true first = true ∧
      others.all (isGroupNameChar false) = true

instance : DecidablePred IsGroupName
  | [] => inferInstanceAs (Decidable False)
  | first :: others =>
    inferInstanceAs (Decidable (isGroupNameChar true first = true ∧
      others.all (isGroupNameChar false) = true))

/-- In the name of a group there are no marks but brackets. -/
theorem IsGroupName.forall_not_mem {name : List Char} (h : IsGroupName name) :
    ∀ c ∈ name, c ∉ ['\\', '(', ')', '|', '>'] := by
  have none : ∀ first, ['\\', '(', ')', '|', '>'].all
    (isGroupNameChar first · = false) := by decide
  have other {first : Bool} {c : Char}
    (valid : isGroupNameChar first c = true) :
      c ∉ ['\\', '(', ')', '|', '>'] := fun mark => by
    have invalid := of_decide_eq_true (List.all_eq_true.mp (none first) c mark)
    rw [valid] at invalid
    cases invalid
  cases name with
  | nil => exact h.elim
  | cons first others =>
    exact List.forall_mem_cons.mpr
      ⟨other h.1, fun c mem => other (List.all_eq_true.mp h.2 c mem)⟩

/-- What is read of the name of a group is the name and the bracket that closes
it. -/
theorem readGroupName_ok_iff {cs name rest : List Char} :
    readGroupName cs = .ok (name, rest) ↔
      IsGroupName name ∧ cs = name ++ '>' :: rest := by
  unfold readGroupName
  constructor
  · intro ok
    simp only at ok
    split at ok
    · next named here =>
      split at ok
      · next valid =>
        cases ok
        refine ⟨?_, by rw [← here, List.takeWhile_append_dropWhile]⟩
        rw [named]
        simpa [IsGroupName] using valid
      · cases ok
    · cases ok
  · rintro ⟨valid, rfl⟩
    have inside : ∀ c ∈ name, (c != '>') = true := fun c mem =>
      bne_iff_ne.mpr fun same =>
        valid.forall_not_mem '>' (same ▸ mem) (by decide)
    rw [List.takeWhile_append_of_pos inside,
      List.dropWhile_append_of_pos inside]
    cases name with
    | nil => exact valid.elim
    | cons first others => simpa [IsGroupName] using valid

/-- What may stand behind the parenthesis of a group, and what becomes of the
reader there. -/
inductive OpensGroup (p : Progress) : List Char → Progress → Prop
  | capture : OpensGroup p [] p.openCapture
  | named {mark name : List Char}
      (start : mark = ['?', 'P', '<'] ∨ mark = ['?', '<'])
      (valid : IsGroupName name) :
      OpensGroup p (mark ++ (name ++ ['>']))
        { p.openCapture with names := name :: p.names }
  | flags {letters : List Char} (kind : IsPlain letters) (flags : Flags) :
      OpensGroup p ('?' :: (letters ++ [':'])) (p.openGroup none flags)
  /-- The parenthesis is closed again: the flags hold for the rest of the group
  around. -/
  | setFlags {letters : List Char} (kind : IsPlain letters) (flags : Flags) :
      OpensGroup p ('?' :: (letters ++ [')'])) { p with
        flags, branches :=
          { p.branches with items := none :: p.branches.items } }

theorem exists_of_readNamedGroup {p p' : Progress} {cs rest : List Char}
    (ok : readNamedGroup p cs = .ok (p', rest)) :
    ∃ name, cs = name ++ '>' :: rest ∧ IsGroupName name ∧
      p' = { p.openCapture with names := name :: p.names } := by
  obtain ⟨⟨name, rest'⟩, read, there⟩ := bind_ok_iff.mp ok
  simp only at there
  split at there
  · cases there
  · cases there
    obtain ⟨valid, whole⟩ := readGroupName_ok_iff.mp read
    exact ⟨name, whole, valid, rfl⟩

theorem exists_of_readFlagGroup {p p' : Progress} {cs rest : List Char}
    (ok : readFlagGroup p cs = .ok (p', rest)) :
    ∃ text, cs = text ++ rest ∧ OpensGroup p ('?' :: text) p' := by
  obtain ⟨⟨flags, rest'⟩, read, there⟩ := bind_ok_iff.mp ok
  obtain ⟨letters, c, behind, rfl, rfl, kind, stop⟩ := exists_of_readFlags read
  rcases stop with rfl | rfl
  · cases there
    exact ⟨letters ++ [':'], by simp, .flags kind flags⟩
  · cases there
    exact ⟨letters ++ [')'], by simp, .setFlags kind flags⟩

theorem exists_of_readGroup {p p' : Progress} (plain : p.flags.verbose = false)
    {cs rest : List Char} (ok : readGroup p cs = .ok (p', rest)) :
    ∃ text, cs = text ++ rest ∧ OpensGroup p text p' := by
  rw [readGroup_eq, p.flags.dropGap_eq_self plain] at ok
  unfold readOpening at ok
  split at ok
  · unfold readMark at ok
    split at ok
    · cases ok
    · cases ok
    · cases ok
    · cases ok
    · obtain ⟨name, rfl, valid, rfl⟩ := exists_of_readNamedGroup ok
      exact ⟨_, by simp, .named (.inl rfl) valid⟩
    · obtain ⟨name, rfl, valid, rfl⟩ := exists_of_readNamedGroup ok
      exact ⟨_, by simp, .named (.inr rfl) valid⟩
    · cases ok
    · obtain ⟨text, rfl, opens⟩ := exists_of_readFlagGroup ok
      exact ⟨_, rfl, opens⟩
  · cases ok
    exact ⟨[], rfl, .capture⟩

/-! ## Patterns without alternatives -/

/-- Whether what has been read is a single alternative, and none of its
expressions is a choice. -/
structure Branches.IsSingle (b : Branches) : Prop where
  finished : b.finished = []
  items : ∀ e ∈ b.items, ∀ left right, e ≠ some (.choice left right)

/-- Such an alternative is no choice. -/
theorem Branches.IsSingle.close_ne {b : Branches} (h : b.IsSingle)
    (left right : Expr) :
    b.close ≠ .choice left right := by
  unfold close
  rw [h.finished]
  intro whole
  have mem : ∀ e ∈ b.items.reverse.filterMap id,
      e ≠ .choice left right := fun e mem same => by
    obtain ⟨item, listed, rfl⟩ := List.mem_filterMap.mp mem
    exact h.items _ (List.mem_reverse.mp listed) left right (congrArg some same)
  simp only [List.foldl_nil, sequence] at whole
  generalize b.items.reverse.filterMap id = es at whole mem
  rcases es with _ | ⟨e, _ | ⟨_, _⟩⟩
  · cases whole
  · exact mem e List.mem_cons_self whole
  · cases whole

namespace Progress

theorem isSingle_items {branches : Branches} {opened : List OpenGroup}
    {items : List (Option Expr)} (h : (outermost branches opened).IsSingle)
    (kept : ∀ e ∈ items, e ∈ branches.items ∨ ∀ left right,
      e ≠ some (.choice left right)) :
    (outermost { branches with items } opened).IsSingle := by
  cases opened with
  | nil => exact ⟨h.finished, fun e mem => (kept e mem).elim (h.items e) id⟩
  | cons g opened => exact h

theorem isSingle_push {branches : Branches} {opened : List OpenGroup}
    {e : Option Expr} (h : (outermost branches opened).IsSingle)
    (other : ∀ left right, e ≠ some (.choice left right)) :
    (outermost { branches with items := e :: branches.items }
      opened).IsSingle :=
  isSingle_items h <| List.forall_mem_cons.mpr ⟨.inr other, fun _ => .inl⟩

variable {p p' : Progress}

/-- The expression of a reader that has read no bar outside all groups is no
choice. -/
theorem finish_ne (h : p.outer.IsSingle) (left right : Expr) :
    p.finish ≠ .ok (.choice left right) := by
  intro ok
  unfold finish at ok
  split at ok
  · next closed =>
    rw [outer, List.isEmpty_iff.mp closed] at h
    exact h.close_ne left right (Except.ok.inj ok)
  · cases ok

theorem closeGroup_keeps (h : p.outer.IsSingle) (ok : p.closeGroup = .ok p') :
    p.opened.length = p'.opened.length + 1 ∧ p'.outer.IsSingle := by
  unfold closeGroup at ok
  split at ok
  · cases ok
  · next groups =>
    cases ok
    rw [outer, groups] at h
    exact ⟨congrArg List.length groups, isSingle_push h fun _ _ same => by
      cases same⟩

theorem repeatLast_opened {least : Nat} {most : Option Nat} {lazy : Bool}
    (h : p.outer.IsSingle) (ok : p.repeatLast least most lazy = .ok p') :
    p'.opened = p.opened ∧ p'.outer.IsSingle := by
  unfold repeatLast at ok
  split at ok
  · next e items last =>
    cases ok
    refine ⟨rfl, isSingle_items h <| List.forall_mem_cons.mpr ⟨.inr nofun,
      fun e mem => .inl ?_⟩⟩
    rw [last]
    exact List.mem_cons_of_mem _ mem
  · cases ok

end Progress

theorem Flags.dot_ne (f : Flags) (left right : Expr) :
    some f.dot ≠ some (.choice left right) := by
  simp only [dot]
  split <;> nofun

theorem Atom.toExpr_ne (a : Atom) (f : Flags) (left right : Expr) :
    some (a.toExpr f) ≠ some (.choice left right) := by
  intro same
  cases a with
  | point n raw =>
    simp only [toExpr] at same
    split at same <;> cases same
  | set s =>
    simp only [toExpr] at same
    split at same <;> cases same
  | anchor a => cases same

/-! ## Readings -/

/-- Reading a pattern whose classes and names of groups are of a kind, blanks
always counting. -/
inductive ReadsWith (classes names : Set (List Char)) :
    Progress → List Char → Progress → Prop
  | done {p : Progress} (plain : p.flags.verbose = false) :
      ReadsWith classes names p [] p
  | element {p p' q : Progress} {c : Char} {text rest : List Char}
      (plain : p.flags.verbose = false)
      (read : readElementAt p c (text ++ rest) = .ok (p', rest))
      (ofClasses : c = '[' → c :: text ∈ classes)
      (ofNames : ∀ name ∈ p'.names, name ∈ names)
      (others : ReadsWith classes names p' rest q) :
      ReadsWith classes names p (c :: (text ++ rest)) q

/-- Whether a text can be a class at the start of a pattern. -/
def IsClass (text : List Char) : Prop :=
  ∃ inside set, text = '[' :: inside ∧ readClass .initial text = .ok (set, [])

theorem IsClass.isClosed {text : List Char} (h : IsClass text) :
    IsClosed text := by
  obtain ⟨inside, set, -, read⟩ := h
  obtain ⟨text', same, closed⟩ := takes_class rfl read
  rwa [same, List.append_nil]

namespace ReadsWith

variable {classes names : Set (List Char)} {p q : Progress} {cs : List Char}

theorem reads (h : ReadsWith classes names p cs q) : Reads p cs q := by
  induction h with
  | @done p plain => exact .done (p.flags.dropGap_eq_self plain [])
  | @element p p' q c text rest plain read _ _ _ ih =>
    exact .element (p.flags.dropGap_eq_self plain _) read ih

theorem mono {classes' names' : Set (List Char)}
    (h : ReadsWith classes names p cs q) (more : classes ⊆ classes')
    (more' : names ⊆ names') : ReadsWith classes' names' p cs q := by
  induction h with
  | done plain => exact .done plain
  | element plain read ofClasses ofNames _ ih =>
    exact .element plain read (fun bracket => more (ofClasses bracket))
      (fun name mem => more' (ofNames name mem)) ih

theorem ofText?_eq (h : ReadsWith classes names .initial cs q) :
    Expr.ofText? cs = q.finish := by
  rw [Expr.ofText?, h.reads.readPattern_eq]
  rfl

/-- An element that is a single character. -/
theorem of_single {c : Char} {p' : Progress} (plain : p.flags.verbose = false)
    (read : readElementAt p c cs = .ok (p', cs))
    (other : c ≠ '[') (known : ∀ name ∈ p'.names, name ∈ names)
    (others : ReadsWith classes names p' cs q) :
    ReadsWith classes names p (c :: cs) q :=
  @element classes names p p' q c [] cs plain read (absurd · other) known others

theorem of_capture (plain : p.flags.verbose = false)
    (known : ∀ name ∈ p.names, name ∈ names) (capture : cs.head? ≠ some '?')
    (others : ReadsWith classes names p.openCapture cs q) :
    ReadsWith classes names p ('(' :: cs) q := by
  have read : readGroup p cs = .ok (p.openCapture, cs) := by
    rw [readGroup_eq, p.flags.dropGap_eq_self plain]
    unfold readOpening
    split
    · exact absurd rfl capture
    · rfl
  exact of_single plain read (by decide) known others

theorem of_closed {p' : Progress} (plain : p.flags.verbose = false)
    (closed : p.closeGroup = .ok p') (known : ∀ name ∈ p'.names, name ∈ names)
    (others : ReadsWith classes names p' cs q) :
    ReadsWith classes names p (')' :: cs) q := by
  refine of_single plain ?_ (by decide) known others
  exact bind_ok_iff.mpr ⟨p', closed, rfl⟩

theorem of_bar (plain : p.flags.verbose = false)
    (known : ∀ name ∈ p.names, name ∈ names) (others : ReadsWith classes names
      { p with branches := p.branches.next } cs q) :
    ReadsWith classes names p ('|' :: cs) q :=
  of_single plain rfl (by decide) known others

theorem of_class {inside : List Char} {set : CharSet}
    (start : p.flags = .initial) (known : ∀ name ∈ p.names, name ∈ names)
    (read : readClass .initial ('[' :: inside) = .ok (set, []))
    (mem : '[' :: inside ∈ classes)
    (others : ReadsWith classes names (p.push (.char set)) cs q) :
    ReadsWith classes names p ('[' :: inside ++ cs) q := by
  have whole : readClass p.flags ('[' :: (inside ++ cs)) = .ok (set, cs) :=
    start ▸ (readsClosed_class .initial read).2 cs
  have element : readElementAt p '[' (inside ++ cs)
      = .ok (p.push (.char set), cs) :=
    bind_ok_iff.mpr ⟨_, whole, by rw [start]; rfl⟩
  exact .element (start ▸ rfl) element (fun _ => mem) known others

theorem of_named {name : List Char} (start : p.flags = .initial)
    (none : p.names = []) (valid : IsGroupName name)
    (mem : name ∈ names) (others : ReadsWith classes names
      { p.openCapture with names := [name] } cs q) :
    ReadsWith classes names p
      ('(' :: ('?' :: 'P' :: '<' :: (name ++ ['>']) ++ cs)) q := by
  have read : readElementAt p '(' ('?' :: 'P' :: '<' :: (name ++ ['>']) ++ cs)
      = .ok ({ p.openCapture with names := [name] }, cs) := by
    show readGroup p _ = _
    rw [readGroup_eq, start]
    show readNamedGroup p (name ++ ['>'] ++ cs) = _
    have taken : readGroupName (name ++ ['>'] ++ cs) = .ok (name, cs) :=
      readGroupName_ok_iff.mpr ⟨valid, by simp⟩
    rw [readNamedGroup, taken]
    simp [bind, Except.bind, none]
    rfl
  exact .element (start ▸ rfl) read nofun (by simpa using mem) others

end ReadsWith

/-! ### Classes in groups -/

/-- A text with so many groups around it. -/
def nested : Nat → List Char → List Char
  | 0, text => text
  | depth + 1, text => '(' :: (nested depth text ++ [')'])

theorem head?_nested {text : List Char} (start : text.head? = some '[')
    (depth : Nat) (rest : List Char) :
    (nested depth text ++ rest).head? ≠ some '?' := by
  cases depth with
  | zero => simp [nested, start]
  | succ depth => simp [nested]

/-- A reader behind an expression. -/
structure IsBehind (p p' : Progress) : Prop where
  flags : p'.flags = p.flags
  opened : p'.opened = p.opened
  names : p'.names = p.names
  finished : p'.branches.finished = p.branches.finished

theorem exists_reads_nested {inside : List Char} {set : CharSet} {p : Progress}
    (read : readClass .initial ('[' :: inside) = .ok (set, [])) (depth : Nat)
    (start : p.flags = .initial) (none : p.names = []) :
    ∃ p', IsBehind p p' ∧ ∀ cs q, ReadsWith {'[' :: inside} ∅ p' cs q →
      ReadsWith {'[' :: inside} ∅ p (nested depth ('[' :: inside) ++ cs) q := by
  have plain : p.flags.verbose = false := start ▸ rfl
  have known : ∀ name ∈ p.names, name ∈ (∅ : Set (List Char)) := by simp [none]
  induction depth generalizing p with
  | zero =>
    exact ⟨p.push (.char set), ⟨rfl, rfl, rfl, rfl⟩,
      fun cs q others => .of_class start known read rfl others⟩
  | succ depth ih =>
    obtain ⟨p₁, behind, others₁⟩ :=
      ih (p := p.openCapture) start none plain known
    obtain ⟨p', closed, same⟩ : ∃ p', p₁.closeGroup = .ok p' ∧
        IsBehind p p' := by
      rw [Progress.closeGroup, behind.opened]
      exact ⟨_, rfl, rfl, rfl, behind.names, rfl⟩
    refine ⟨p', same, fun cs q others => ?_⟩
    rw [nested, List.cons_append, List.append_assoc]
    refine .of_capture plain known (head?_nested rfl depth _)
      (others₁ _ q (.of_closed ?_ closed ?_ others))
    · rw [behind.flags]
      exact plain
    · rw [same.names]
      exact known

theorem finish_bar {p : Progress} (closed : p.opened = [])
    (finished : p.branches.finished = []) :
    ({ p with branches := p.branches.next } : Progress).finish
      = .ok (.choice p.branches.sequence .empty) := by
  simp only [Progress.finish, closed, Branches.close, Branches.next, finished]
  rfl

end Lexigram.Pattern
