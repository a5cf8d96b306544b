import Lexigram.Proofs.Pattern.Elements

/-!
Patterns inside patterns. A reader that is in the middle of a pattern reads
another one as it would by itself, in the place where it stands: the groups of
the inner pattern count on from those before it, and what is complete of it is
added to what is around (`Progress.host`). It fails only where the inner pattern
names a group that has a name already (`Reads.host`, `Reads.host_stale`).
-/

namespace Lexigram.Pattern

/-! ## Groups that count on -/

/-- The expression with the indices of its groups raised. -/
def Expr.shift (k : Nat) : Expr → Expr
  | empty => empty
  | char set => char set
  | byte set => byte set
  | anchor a => anchor a
  | sequence a b => sequence (a.shift k) (b.shift k)
  | choice a b => choice (a.shift k) (b.shift k)
  | repetition body least most greedy =>
    repetition (body.shift k) least most greedy
  | group index body => group (index.map (· + k)) (body.shift k)

theorem Expr.shift_ofSequence (k : Nat) (es : List Expr) :
    (ofSequence es).shift k = ofSequence (es.map (shift k)) := by
  induction es with
  | nil => rfl
  | cons e es ih =>
    cases es with
    | nil => rfl
    | cons e' es => exact congrArg (Expr.sequence (e.shift k)) ih

namespace Branches

/-- What has been read of a group, with the indices of the groups in it
raised. -/
def shift (k : Nat) (b : Branches) : Branches :=
  ⟨b.finished.map (Expr.shift k), b.items.map (Option.map (Expr.shift k))⟩

/-- What has been read of a group behind what had been read before. -/
def onto (b base : Branches) : Branches :=
  ⟨b.finished ++ base.finished, b.items ++ base.items⟩

theorem sequence_shift (k : Nat) (b : Branches) :
    (b.shift k).sequence = b.sequence.shift k := by
  rw [sequence, sequence, Expr.shift_ofSequence, List.map_filterMap, shift,
    ← List.map_reverse, List.filterMap_map]
  rfl

theorem next_shift (k : Nat) (b : Branches) :
    (b.shift k).next = b.next.shift k := by
  simp only [next, sequence_shift]
  rfl

theorem close_shift (k : Nat) (b : Branches) :
    (b.shift k).close = b.close.shift k := by
  rw [close, close, sequence_shift]
  generalize b.sequence = e
  obtain ⟨finished, items⟩ := b
  simp only [shift]
  induction finished generalizing e with
  | nil => rfl
  | cons f finished ih => exact ih (.choice f e)

end Branches

/-! ## Moves -/

/-- What reading an element does to a reader. -/
inductive Move where
  /-- Adds an expression without groups. -/
  | push (e : Expr) (groupless : ∀ k, e.shift k = e)
  | next
  | close
  /-- Opens a group that records its match. -/
  | capture (name : Option (List Char))
  /-- Opens a group that records nothing. -/
  | openGroup (flags : Flags)
  | setFlags (flags : Flags)
  | repeatLast (least : Nat) (most : Option Nat) (lazy : Bool)

namespace Move

/-- Makes a move. -/
def apply (p : Progress) : Move → Except PatternFault Progress
  | push e _ => .ok (p.push e)
  | next => .ok { p with branches := p.branches.next }
  | close => p.closeGroup
  | capture none => .ok p.openCapture
  | capture (some name) =>
    if p.names.contains name then .error .duplicateGroupName
    else .ok { p.openCapture with names := name :: p.names }
  | openGroup flags => .ok (p.openGroup none flags)
  | setFlags flags =>
    .ok { p with
      flags, branches := { p.branches with items := none :: p.branches.items } }
  | repeatLast least most lazy => p.repeatLast least most lazy

/-- What a move makes of a reader, where it can be made. -/
inductive Makes (p : Progress) : Move → Progress → Prop
  | push {e : Expr} {groupless : ∀ k, e.shift k = e} :
      Makes p (.push e groupless) (p.push e)
  | next : Makes p .next { p with branches := p.branches.next }
  | close {g : OpenGroup} {opened : List OpenGroup}
      (groups : p.opened = g :: opened) :
      Makes p .close { p with
        flags := g.flags, opened,
        branches := g.around.push (.group g.index p.branches.close) }
  | capture : Makes p (.capture none) p.openCapture
  | named {name : List Char} (new : name ∉ p.names) :
      Makes p (.capture (some name))
        { p.openCapture with names := name :: p.names }
  | openGroup {flags : Flags} :
      Makes p (.openGroup flags) (p.openGroup none flags)
  | setFlags {flags : Flags} :
      Makes p (.setFlags flags) { p with
        flags, branches :=
          { p.branches with items := none :: p.branches.items } }
  | repeatLast {least : Nat} {most : Option Nat} {lazy : Bool} {e : Expr}
      {items : List (Option Expr)} (last : p.branches.items = some e :: items) :
      Makes p (.repeatLast least most lazy) { p with
        branches := { p.branches with
          items := some (.repetition e least most (lazy == p.flags.swapGreed))
            :: items } }

theorem apply_eq_ok_iff {p p' : Progress} {move : Move} :
    move.apply p = .ok p' ↔ move.Makes p p' := by
  constructor
  · intro ok
    cases move with
    | push => exact Except.ok.inj ok ▸ .push
    | next => exact Except.ok.inj ok ▸ .next
    | close =>
      simp only [apply, Progress.closeGroup] at ok
      split at ok
      · cases ok
      · next groups => exact Except.ok.inj ok ▸ .close groups
    | capture name =>
      cases name with
      | none => exact Except.ok.inj ok ▸ .capture
      | some name =>
        simp only [apply] at ok
        split at ok
        · cases ok
        · next new => exact Except.ok.inj ok ▸ .named (by simpa using new)
    | openGroup => exact Except.ok.inj ok ▸ .openGroup
    | setFlags => exact Except.ok.inj ok ▸ .setFlags
    | repeatLast =>
      simp only [apply, Progress.repeatLast] at ok
      split at ok
      · next last => exact Except.ok.inj ok ▸ .repeatLast last
      · cases ok
  · intro makes
    cases makes with
    | push | next | capture | openGroup | setFlags => rfl
    | close groups => simp only [apply, Progress.closeGroup, groups]
    | named new => simp [apply, new]
    | repeatLast last => simp only [apply, Progress.repeatLast, last]

end Move

/-- The expressions of atoms have no groups. -/
theorem Atom.shift_toExpr (f : Flags) (a : Atom) (k : Nat) :
    (a.toExpr f).shift k = a.toExpr f := by
  cases a <;> simp only [toExpr] <;> (try split) <;> rfl

/-- Every reader with the same flags makes the same move and leaves the same
text, or fails. -/
def IsMove (f : Flags)
    (read : Progress → Except PatternFault (Progress × List Char)) : Prop :=
  (∃ e, ∀ p : Progress, p.flags = f → read p = .error e) ∨
    ∃ (move : Move) (rest : List Char), ∀ p : Progress, p.flags = f →
      read p = (move.apply p).map fun p => (p, rest)

namespace IsMove

variable {f : Flags} {read : Progress →
  Except PatternFault (Progress × List Char)}

theorem of_move (move : Move) (rest : List Char) (same : ∀ p : Progress, p.flags
      = f → read p = (move.apply p).map fun p => (p, rest)) : IsMove f read :=
  .inr ⟨move, rest, same⟩

theorem error (e : PatternFault) : IsMove f fun _ => .error e :=
  .inl ⟨e, fun _ _ => rfl⟩

/-- Something is read first, which the flags and the text alone decide. -/
theorem bind {α : Type} (first : Flags → Except PatternFault α)
    {next : α → Progress → Except PatternFault (Progress × List Char)}
    (move : ∀ a, IsMove f (next a)) :
    IsMove f fun p => first p.flags >>= fun a => next a p := by
  have behind {p : Progress} (same : p.flags = f) (a : α)
      (read : first f = .ok a) :
      (first p.flags >>= fun a => next a p) = next a p := by
    rw [same, read]
    rfl
  cases read : first f with
  | error e =>
    refine .inl ⟨e, fun p same => ?_⟩
    simp only [same, read]
    rfl
  | ok a =>
    refine (move a).imp (fun ⟨e, fails⟩ => ⟨e, fun p same => ?_⟩)
      fun ⟨m, rest, moves⟩ => ⟨m, rest, fun p same => ?_⟩
    · exact (behind same a read).trans (fails p same)
    · exact (behind same a read).trans (moves p same)

end IsMove

variable (f : Flags)

theorem isMove_repeatLast (least : Nat) (most : Option Nat) (cs : List Char) :
    IsMove f fun p => (do
      let (lazy, rest) := readLazy cs
      return (← p.repeatLast least most lazy, rest) :
          Except PatternFault (Progress × List Char)) := by
  refine .of_move (.repeatLast least most (readLazy cs).1) (readLazy cs).2
    fun p _ => ?_
  simp only [Move.apply]
  cases p.repeatLast least most (readLazy cs).1 <;> rfl

theorem isMove_namedGroup (cs : List Char) :
    IsMove f fun p => readNamedGroup p cs := by
  refine IsMove.bind (fun _ => readGroupName cs) fun read => ?_
  refine .of_move (.capture (some read.1)) read.2 fun p _ => ?_
  simp only [Move.apply]
  split <;> rfl

theorem isMove_flagGroup (cs : List Char) :
    IsMove f fun p => readFlagGroup p cs := by
  refine IsMove.bind (fun f => f.read [] true cs) fun (flags, rest) => ?_
  cases rest with
  | nil => exact .error _
  | cons c rest =>
    by_cases colon : c = ':'
    · exact .of_move (.openGroup flags) rest fun p _ => by
        simp [endFlags, colon, Move.apply, Except.map]
    · exact .of_move (.setFlags flags) rest fun p _ => by
        simp [endFlags, colon, Move.apply, Except.map]

theorem isMove_opening (cs : List Char) :
    IsMove f fun p => readOpening p cs := by
  unfold readOpening
  split
  · unfold readMark
    split
    · exact .error _
    · exact .error _
    · exact .error _
    · exact .error _
    · exact isMove_namedGroup f _
    · exact isMove_namedGroup f _
    · exact .error _
    · exact isMove_flagGroup f _
  · exact .of_move (.capture none) _ fun p _ => rfl

theorem isMove_group (cs : List Char) : IsMove f fun p => readGroup p cs := by
  simp only [readGroup_eq]
  exact IsMove.bind (fun f => .ok (f.dropGap cs)) (isMove_opening f)

theorem isMove_push (e : Flags → Expr) (groupless : ∀ k, (e f).shift k = e f)
    (rest : List Char) :
    IsMove f fun p => .ok (p.push (e p.flags), rest) :=
  .of_move (.push (e f) groupless) rest fun p same => by
    subst same
    rfl

/-- The flags in force and the text say which move an element is. -/
theorem isMove_element (c : Char) (cs : List Char) :
    IsMove f fun p => readElementAt p c cs := by
  unfold readElementAt
  dsimp only
  split
  · exact isMove_group f cs
  · refine .of_move .close cs fun p _ => ?_
    simp only [Move.apply]
    cases p.closeGroup <;> rfl
  · exact .of_move .next cs fun p _ => rfl
  · refine IsMove.bind (fun f => readClass f ('[' :: cs)) fun read => ?_
    exact isMove_push f
      (fun f => if f.unicode then .char read.1 else .byte read.1)
      (fun k => by split <;> rfl) read.2
  · exact isMove_repeatLast f 0 (some 1) cs
  · exact isMove_repeatLast f 0 none cs
  · exact isMove_repeatLast f 1 none cs
  · refine IsMove.bind (fun f => readBounds f cs) fun (least, most, rest) => ?_
    exact IsMove.bind (fun f => .ok (f.dropGap rest))
      (isMove_repeatLast f least most)
  · refine IsMove.bind (fun f => readEscape f cs) fun read => ?_
    exact isMove_push f (fun f => read.1.toExpr f)
      (read.1.shift_toExpr f) read.2
  · exact isMove_push f Flags.dot
      (fun k => by unfold Flags.dot; dsimp only; split <;> rfl) cs
  · exact isMove_push f (fun f => .anchor f.startAnchor) (fun _ => rfl) cs
  · exact isMove_push f (fun f => .anchor f.endAnchor) (fun _ => rfl) cs
  · exact isMove_push f (fun f => Atom.toExpr f (.point _ false))
      (Atom.shift_toExpr f _) cs

/-! ## Readers inside patterns -/

namespace Progress

/-- What has been read of the pattern itself, outside its groups: `branches` are
those of the innermost group. -/
def outermost (branches : Branches) : List OpenGroup → Branches
  | [] => branches
  | g :: opened => outermost g.around opened

/-- What has been read of the pattern itself, outside its groups. -/
def outer (p : Progress) : Branches :=
  outermost p.branches p.opened

variable (base : Progress)

/-- The innermost branches of a pattern inside another: those of the pattern
itself are added to what is around. -/
def place (branches : Branches) (opened : List OpenGroup) : Branches :=
  if opened.isEmpty then (branches.shift base.groups).onto base.branches
  else branches.shift base.groups

/-- The open groups of a pattern inside another, in front of those around. -/
def placeOpened : List OpenGroup → List OpenGroup
  | [] => base.opened
  | g :: opened =>
    ⟨g.index.map (· + base.groups), g.flags, base.place g.around opened⟩ ::
      placeOpened opened

/-- The reader of a pattern that starts where `base` stands. -/
def host (p : Progress) : Progress where
  flags := p.flags
  branches := base.place p.branches p.opened
  opened := base.placeOpened p.opened
  groups := p.groups + base.groups
  names := p.names ++ base.names

variable {base} {p p' : Progress}

theorem place_push (branches : Branches) (opened : List OpenGroup)
    {e : Option Expr} :
    base.place { branches with items := e :: branches.items } opened =
      { base.place branches opened with
        items := e.map (Expr.shift base.groups) ::
            (base.place branches opened).items } := by
  unfold place
  split <;> rfl

theorem place_next {branches : Branches} {opened : List OpenGroup}
    (clear : opened = [] → base.branches.items = []) :
    base.place branches.next opened = (base.place branches opened).next := by
  unfold place
  cases opened with
  | nil =>
    simp only [List.isEmpty_nil, if_true, ← Branches.next_shift]
    simp [Branches.next, Branches.onto, clear rfl, Branches.sequence]
  | cons g opened => exact (Branches.next_shift ..).symm

theorem host_openCapture :
    base.host p.openCapture = (base.host p).openCapture := by
  simp only [host, openCapture, openGroup, placeOpened, Option.map_some,
    Nat.add_right_comm _ 1]
  rfl

end Progress

/-- Where a pattern may stand: where a sequence starts, or anywhere if it has no
alternatives. -/
def Progress.Fits (base p : Progress) : Prop :=
  base.branches.items = [] ∨ p.outer.finished = []

theorem Move.apply_host {base p p' : Progress} {move : Move}
    (fits : base.Fits p') (fresh : ∀ name ∈ p'.names, name ∉ base.names)
    (ok : move.apply p = .ok p') :
    move.apply (base.host p) = .ok (base.host p') := by
  cases apply_eq_ok_iff.mp ok with
  | @push e groupless =>
    simp only [apply, Progress.push, Branches.push, Progress.host,
      Progress.place_push, Option.map_some, groupless]
  | next =>
    simp only [apply, Progress.host]
    rw [Progress.place_next]
    -- the pattern has alternatives now, so it has to stand where a sequence
    -- starts
    intro outside
    refine fits.resolve_right fun none => ?_
    simp [Progress.outer, outside, Progress.outermost, Branches.next] at none
  | @close g opened groups =>
    have inside : (base.place p.branches (g :: opened)).close
        = p.branches.close.shift base.groups :=
      Branches.close_shift ..
    simp only [apply, Progress.closeGroup, Progress.host,
      groups, Progress.placeOpened, inside, Branches.push, Progress.place_push,
      Option.map_some, Expr.shift]
  | capture => simp only [apply, Progress.host_openCapture]
  | @named name new =>
    have unknown : name ∉ (base.host p).names := by
      simpa [Progress.host] using ⟨new, fresh name List.mem_cons_self⟩
    refine (apply_eq_ok_iff.mpr (.named unknown)).trans ?_
    rw [← Progress.host_openCapture]
    rfl
  | openGroup => rfl
  | setFlags =>
    simp only [apply, Progress.host, Progress.place_push, Option.map_none]
  | @repeatLast least most lazy e items last =>
    have whole : p.branches = { (⟨p.branches.finished, items⟩ : Branches) with
        items := some e :: items } := by
      rw [← last]
    simp only [apply, Progress.repeatLast, Progress.host]
    rw [whole, Progress.place_push,
      Progress.place_push ⟨p.branches.finished, items⟩]
    rfl

/-- What a reader keeps as it goes on: names, and alternatives of the pattern
itself. -/
structure Progress.Before (p q : Progress) : Prop where
  bare : q.outer.finished = [] → p.outer.finished = []
  names : p.names ⊆ q.names

theorem Progress.Before.refl (p : Progress) : p.Before p :=
  ⟨id, List.Subset.refl _⟩

theorem Progress.Before.trans {p q r : Progress} (h : p.Before q)
    (h' : q.Before r) : p.Before r :=
  ⟨fun none => h.bare (h'.bare none), List.Subset.trans h.names h'.names⟩

theorem Progress.Before.fits {base p q : Progress} (h : p.Before q)
    (fits : base.Fits q) : base.Fits p :=
  fits.imp_right h.bare

theorem Progress.finished_outermost_items (branches : Branches)
    (items : List (Option Expr)) (opened : List OpenGroup) :
    (outermost { branches with items } opened).finished
      = (outermost branches opened).finished := by
  cases opened <;> rfl

theorem Move.apply_before {p p' : Progress} {move : Move}
    (ok : move.apply p = .ok p') : p.Before p' := by
  have items {q : Progress} (branches : Branches)
      (is : List (Option Expr)) (opened : List OpenGroup)
      (same : q.outer = Progress.outermost { branches with items := is } opened)
      (none : q.outer.finished = []) :
      (Progress.outermost branches opened).finished = [] := by
    rwa [same, Progress.finished_outermost_items] at none
  cases apply_eq_ok_iff.mp ok with
  | push | setFlags | repeatLast =>
    exact ⟨items p.branches _ p.opened rfl, List.Subset.refl _⟩
  | next =>
    refine ⟨fun none => ?_, List.Subset.refl _⟩
    simp only [Progress.outer] at none ⊢
    cases groups : p.opened with
    | nil =>
      rw [groups] at none
      cases none
    | cons g opened => rwa [groups] at none
  | @close g opened groups =>
    refine ⟨fun none => ?_, List.Subset.refl _⟩
    rw [Progress.outer, groups]
    exact items g.around _ opened rfl none
  | capture | openGroup => exact ⟨id, List.Subset.refl _⟩
  | @named name new => exact ⟨id, List.subset_cons_self name p.names⟩

/-- A name that is taken already. -/
theorem Move.apply_host_stale {base p p' : Progress} {move : Move}
    (fresh : ∀ name ∈ p.names, name ∉ base.names)
    {name : List Char} (mem : name ∈ p'.names) (taken : name ∈ base.names)
    (ok : move.apply p = .ok p') :
    move.apply (base.host p) = .error .duplicateGroupName := by
  cases apply_eq_ok_iff.mp ok with
  | @named new _ =>
    obtain rfl : name = new := by
      by_contra other
      exact fresh name ((List.mem_cons.mp mem).resolve_left other) taken
    simp only [apply]
    rw [if_pos (by simpa [Progress.host] using .inr taken)]
  | push | next | close | capture | openGroup | setFlags | repeatLast =>
    exact absurd taken (fresh name mem)

/-! ## Whole texts -/

theorem readPattern_skip (p : Progress) {cs rest : List Char}
    (suffix : rest <:+ cs) :
    readPattern p (cs.length - rest.length) cs = readPattern p 0 rest := by
  obtain ⟨front, rfl⟩ := suffix
  rw [List.length_append, Nat.add_sub_cancel]
  induction front with
  | nil => rfl
  | cons c front ih => exact ih

theorem readPattern_gap (p : Progress) (cs : List Char) :
    readPattern p 0 cs = readPattern p 0 (p.flags.dropGap cs) := by
  cases cs with
  | nil => rw [List.suffix_nil.mp (p.flags.dropGap_suffix [])]
  | cons c cs =>
    by_cases short : (p.flags.dropGap (c :: cs)).length ≤ cs.length
    · have suffix := List.suffix_of_suffix_length_le
        (p.flags.dropGap_suffix (c :: cs)) (List.suffix_cons c cs) short
      rw [← readPattern_skip p suffix, readPattern, if_pos short]
    · rw [(p.flags.dropGap_suffix (c :: cs)).eq_of_length_le
        (by simp only [List.length_cons]; omega)]

theorem readPattern_element {p : Progress} {c : Char} {cs cs' : List Char}
    (gap : p.flags.dropGap cs = c :: cs') :
    readPattern p 0 cs =
      (readElementAt p c cs' >>= fun read => readPattern read.1 0 read.2) := by
  have long : ¬ (p.flags.dropGap (c :: cs')).length ≤ cs'.length := by
    rw [← gap, p.flags.dropGap_dropGap, gap, List.length_cons]
    omega
  rw [readPattern_gap, gap, readPattern, if_neg long]
  cases read : readElementAt p c cs' with
  | error e => rfl
  | ok y => exact readPattern_skip y.1 (readsElement p c read).1

/-- Reading a text element by element. -/
inductive Reads : Progress → List Char → Progress → Prop
  | done {p : Progress} {cs : List Char} (gap : p.flags.dropGap cs = []) :
      Reads p cs p
  | element {p p' q : Progress} {c : Char}
      {cs cs' rest : List Char} (gap : p.flags.dropGap cs = c :: cs')
      (read : readElementAt p c cs' = .ok (p', rest))
      (others : Reads p' rest q) : Reads p cs q

theorem Reads.readPattern_eq {p q : Progress} {cs : List Char}
    (h : Reads p cs q) : readPattern p 0 cs = .ok q := by
  induction h with
  | done gap => rw [readPattern_gap, gap, readPattern]
  | element gap read _ ih => rw [readPattern_element gap, read]; exact ih

theorem reads_of_readPattern {p q : Progress} {cs : List Char}
    (ok : readPattern p 0 cs = .ok q) : Reads p cs q := by
  induction len : cs.length using Nat.strong_induction_on generalizing cs p with
  | _ n ih =>
    cases gap : p.flags.dropGap cs with
    | nil =>
      rw [readPattern_gap, gap, readPattern] at ok
      cases ok
      exact .done gap
    | cons c cs' =>
      rw [readPattern_element gap] at ok
      obtain ⟨⟨p', rest⟩, read, others⟩ := bind_ok_iff.mp ok
      have shorter : rest.length < n := by
        have whole := (p.flags.dropGap_suffix cs).length_le
        have part := (readsElement p c read).1.length_le
        rw [gap, List.length_cons] at whole
        omega
      exact .element gap read (ih _ shorter others rfl)

theorem exists_move {p p' : Progress} {c : Char} {cs rest : List Char}
    (read : readElementAt p c cs = .ok (p', rest)) :
    ∃ move : Move, move.apply p = .ok p' ∧ ∀ p₂ : Progress, p₂.flags = p.flags →
      readElementAt p₂ c cs = (move.apply p₂).map fun p => (p, rest) := by
  rcases isMove_element p.flags c cs with ⟨e, fails⟩ | ⟨move, rest', moves⟩
  · cases (fails p rfl).symm.trans read
  · replace read := (moves p rfl).symm.trans read
    cases made : move.apply p with
    | error e =>
      rw [made] at read
      cases read
    | ok p₁ =>
      rw [made] at read
      cases read
      exact ⟨move, made, moves⟩

theorem Reads.of_nil {p q : Progress} (h : Reads p [] q) : q = p := by
  cases h with
  | done => rfl
  | element gap =>
    rw [List.suffix_nil.mp (p.flags.dropGap_suffix [])] at gap
    cases gap

/-- Where nothing is left the flags are those at the end. -/
theorem Reads.left_or_stops {p q : Progress} {cs ds : List Char}
    (h : Reads p cs q) (stops : q.flags.Stops ds) :
    cs ≠ [] ∨ p.flags.Stops ds := by
  refine or_iff_not_imp_left.mpr fun none => ?_
  obtain rfl := Decidable.not_not.mp none
  rwa [← h.of_nil]

theorem Reads.before {p q : Progress} {cs : List Char} (h : Reads p cs q) :
    p.Before q := by
  induction h with
  | done => exact .refl _
  | element gap read others ih =>
    obtain ⟨move, made, -⟩ := exists_move read
    exact (Move.apply_before made).trans ih

/-- What stands behind a pattern is read from where the pattern ends, wherever
it stands. -/
def EndsClosed (p : Progress) (cs : List Char) (q : Progress) : Prop :=
  ∀ base : Progress, base.Fits q → (∀ name ∈ q.names, name ∉ base.names) → ∀ ds,
    q.flags.Stops ds →
    readPattern (base.host p) 0 (cs ++ ds) = readPattern (base.host q) 0 ds

/-- A comment at the end of a pattern goes on behind it, wherever it stands. -/
def EndsOpen (p : Progress) (cs : List Char) (q : Progress) : Prop :=
  q.flags.verbose = true ∧ ∀ base : Progress, base.Fits q →
    (∀ name ∈ q.names, name ∉ base.names) → ∀ ds, q.flags.Stops ds → '\n' ∉ ds →
    readPattern (base.host p) 0 (cs ++ ds) = .ok (base.host q)

/-- A pattern is read in the place of `base` as it is by itself, if its names
are new. -/
theorem Reads.host {p q : Progress} {cs : List Char} (h : Reads p cs q) :
    EndsClosed p cs q ∨ EndsOpen p cs q := by
  induction h with
  | @done p cs gap =>
    refine (readsAhead_gap p.flags
      (rfl : readGap p.flags cs = .ok ((), p.flags.dropGap cs))).2.imp ?_ ?_
    · intro same base _ _ ds stops
      have gap' : p.flags.dropGap (cs ++ ds) = ds := by
        simpa [gap] using congrArg Prod.snd
          (Except.ok.inj (same ds (.inr stops)))
      rw [readPattern_gap]
      exact congrArg (readPattern (base.host p) 0) gap'
    · rintro ⟨verbose, -, open_⟩
      refine ⟨verbose, fun base _ _ ds stops line => ?_⟩
      have gap' : p.flags.dropGap (cs ++ ds) = [] :=
        congrArg Prod.snd (Except.ok.inj (open_ ds stops line))
      rw [readPattern_gap]
      exact congrArg (readPattern (base.host p) 0) gap'
  | @element p p' q c cs cs' rest gap read others ih =>
    have before := others.before
    -- the element is read as the same move, which comes to the same in both
    -- places
    have there {base : Progress} (fits : base.Fits q)
        (fresh : ∀ name ∈ q.names, name ∉ base.names) {ds rest' : List Char}
        (read' : readElementAt p c (cs' ++ ds) = .ok (p', rest')) :
        readPattern (base.host p) 0 (cs ++ ds)
          = readPattern (base.host p') 0 rest' := by
      obtain ⟨move, made, moves⟩ := exists_move read'
      have gap' : (base.host p).flags.dropGap (cs ++ ds)
          = c :: (cs' ++ ds) := by
        have :=
          p.flags.dropGap_append (by rw [gap]; exact List.cons_ne_nil c cs') ds
        rwa [gap] at this
      rw [readPattern_element gap', moves (base.host p) rfl, Move.apply_host
        (before.fits fits) (fun name mem => fresh name (before.names mem)) made]
      rfl
    rcases (readsElement p c read).2 with same | ⟨verbose, names, rfl, open_⟩
    · refine ih.imp (fun closed base fits fresh ds stops => ?_) fun ⟨verbose,
        open_⟩ => ⟨verbose, fun base fits fresh ds stops line => ?_⟩
      · exact (there fits fresh (same ds (others.left_or_stops stops))).trans
          (closed base fits fresh ds stops)
      · exact (there fits fresh (same ds (others.left_or_stops stops))).trans
          (open_ base fits fresh ds stops line)
    · -- a comment behind the element takes the rest of the text, so that
      -- nothing else is read
      obtain rfl : q = p' := others.of_nil
      exact .inr ⟨verbose, fun base fits fresh ds stops line => there fits fresh
        (open_ ds stops line)⟩

/-- A pattern is not read in the place of `base` if one of its names is
taken. -/
theorem Reads.host_stale {base p q : Progress}
    {cs : List Char} (h : Reads p cs q) (fits : base.Fits q)
    (fresh : ∀ name ∈ p.names, name ∉ base.names) {name : List Char}
    (mem : name ∈ q.names) (taken : name ∈ base.names) {ds : List Char}
    (stops : q.flags.Stops ds) :
    ∃ e, readPattern (base.host p) 0 (cs ++ ds) = .error e := by
  induction h with
  | done => exact absurd taken (fresh name mem)
  | @element p p' q c cs cs' rest gap read others ih =>
    have gap' : (base.host p).flags.dropGap (cs ++ ds) = c :: (cs' ++ ds) := by
      have :=
        p.flags.dropGap_append (by rw [gap]; exact List.cons_ne_nil c cs') ds
      rwa [gap] at this
    have read' : readElementAt p c (cs' ++ ds) = .ok (p', rest ++ ds) := by
      rcases (readsElement p c read).2 with same | ⟨-, names, rfl, -⟩
      · exact same ds (others.left_or_stops stops)
      · obtain rfl : q = p' := others.of_nil
        exact absurd taken (fresh name (names ▸ mem))
    obtain ⟨move, made, moves⟩ := exists_move read'
    rw [readPattern_element gap', moves (base.host p) rfl]
    by_cases still : ∀ name ∈ p'.names, name ∉ base.names
    · rw [Move.apply_host (others.before.fits fits) still made]
      exact ih fits still mem stops
    · simp only [Classical.not_forall, Classical.not_not, exists_prop] at still
      obtain ⟨name', mem', taken'⟩ := still
      rw [Move.apply_host_stale fresh mem' taken' made]
      exact ⟨_, rfl⟩

end Lexigram.Pattern
