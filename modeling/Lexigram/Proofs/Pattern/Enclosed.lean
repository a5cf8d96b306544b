import Lexigram.Proofs.Pattern.Embedding
import Lexigram.Lexis.Fragment

/-!
Patterns in parentheses. A pattern that can be read by itself is read between
parentheses as a group around its expression, whatever is around it
(`readPattern_enclosed`); so it is in a group that records its match
(`readPattern_capture`), in one that records nothing (`readPattern_wrapped`) and
between anchors (`ofText?_anchored`).
-/

namespace Lexigram.Pattern

/-- A pattern that can be read by itself, with the reader at its end. -/
structure IsPattern (cs : List Char) (q : Progress) : Prop where
  reads : Reads .initial cs q
  complete : q.opened = []

/-- A pattern that can be read between parentheses: no comment at its end goes
on behind it. -/
structure Enclosable (cs : List Char) (q : Progress) :
    Prop extends IsPattern cs q where
  closed : EndsClosed .initial cs q

theorem ofText?_eq_ok_iff {cs : List Char} {e : Expr} :
    Expr.ofText? cs = .ok e ↔ ∃ q, IsPattern cs q ∧ q.branches.close = e := by
  rw [Expr.ofText?, bind_ok_iff]
  constructor
  · rintro ⟨q, read, finished⟩
    simp only [Progress.finish, List.isEmpty_iff] at finished
    split at finished
    · next complete =>
        exact ⟨q, ⟨reads_of_readPattern read, complete⟩, Except.ok.inj finished⟩
    · cases finished
  · rintro ⟨q, ⟨reads, complete⟩, rfl⟩
    exact ⟨q, reads.readPattern_eq, by simp [Progress.finish, complete]⟩

namespace Progress

/-- The reader behind a group around a pattern, `q` being what the pattern comes
to by itself. -/
def around (base q : Progress) (index : Option Nat) : Progress where
  flags := base.flags
  branches := base.branches.push (.group index
    (q.branches.close.shift (base.groups + index.elim 0 fun _ => 1)))
  opened := base.opened
  groups := q.groups + (base.groups + index.elim 0 fun _ => 1)
  names := q.names ++ base.names

/-- The reader behind a pattern in a group that records its match. -/
def capture (base q : Progress) : Progress :=
  base.around q (some (base.groups + 1))

/-- The reader behind a pattern in a group that records nothing. -/
def wrap (base q : Progress) : Progress :=
  base.around q none

theorem host_initial {base : Progress} (flags : base.flags = .initial) :
    base.host initial = base := by
  obtain ⟨f, branches, opened, groups, names⟩ := base
  cases flags
  simp [host, initial, place, placeOpened, Branches.shift, Branches.onto,
    Branches.empty, Flags.initial]

end Progress

section

variable {base q final : Progress} {cs ds : List Char}

/-- The names of a pattern in the place of `base` are new if the whole can be
read. -/
theorem Reads.fresh_of_ok (base : Progress) (h : Reads .initial cs q)
    (flags : base.flags = .initial)
    (start : base.branches = .empty) (stops : q.flags.Stops ds)
    (ok : readPattern base 0 (cs ++ ds) = .ok final) :
    ∀ name ∈ q.names, name ∉ base.names := by
  intro name mem taken
  have fits : base.Fits q := .inl (by rw [start]; rfl)
  obtain ⟨e, fails⟩ := h.host_stale fits (List.forall_mem_nil _) mem taken stops
  rw [base.host_initial flags, ok] at fails
  cases fails

theorem stops_close (f : Flags) (ds : List Char) : f.Stops (')' :: ds) :=
  ⟨by decide, by decide, fun _ => by decide⟩

theorem Flags.dropGap_close (f : Flags) (ds : List Char) :
    f.dropGap (')' :: ds) = ')' :: ds := by
  rw [dropGap]
  split <;> rfl

/-- A parenthesis where no group is open. -/
theorem readPattern_unopened {p : Progress} (complete : p.opened = [])
    (ds : List Char) :
    readPattern p 0 (')' :: ds) = .error .unopenedGroup := by
  have closed : p.closeGroup = .error .unopenedGroup := by
    rw [Progress.closeGroup, complete]
  have read : readElementAt p ')' ds = .error .unopenedGroup := by
    simp only [readElementAt, closed]
    rfl
  rw [readPattern_element (p.flags.dropGap_close ds), read]
  rfl

/-- A parenthesis behind a pattern closes the group that is open around it. -/
theorem readPattern_close (base : Progress) (pattern : Enclosable cs q)
    (flags : base.flags = .initial) (start : base.branches = .empty)
    (fresh : ∀ name ∈ q.names, name ∉ base.names) {g : OpenGroup}
    {opened : List OpenGroup} (groups : base.opened = g :: opened)
    (ds : List Char) :
    readPattern base 0 (cs ++ ')' :: ds) = readPattern
      { flags := g.flags, opened, groups := q.groups + base.groups,
        names := q.names ++ base.names,
        branches := g.around.push
          (.group g.index (q.branches.close.shift base.groups)) } 0 ds := by
  have fits : base.Fits q := .inl (by rw [start]; rfl)
  have gap : (base.host q).flags.dropGap (')' :: ds) = ')' :: ds :=
    Flags.dropGap_close _ ds
  have inside : (base.host q).branches.close
      = q.branches.close.shift base.groups := by
    rw [← Branches.close_shift, Progress.host, pattern.complete]
    simp [Progress.place, Branches.onto, start, Branches.empty]
  have here : (base.host q).opened = g :: opened := by
    rw [Progress.host, pattern.complete]
    exact groups
  have read : readElementAt (base.host q) ')' ds = .ok
      ({ flags := g.flags, opened, groups := q.groups + base.groups,
         names := q.names ++ base.names,
         branches := g.around.push
           (.group g.index (q.branches.close.shift base.groups)) }, ds) := by
    simp only [readElementAt, Progress.closeGroup, here, inside]
    rfl
  have := pattern.closed base fits fresh _ (stops_close _ ds)
  rw [base.host_initial flags] at this
  rw [this, readPattern_element gap, read]
  rfl

/-! ## Groups -/

theorem Flags.dropGap_of_initial {f : Flags} (flags : f = .initial)
    (cs : List Char) : f.dropGap cs = cs := by
  rw [flags]
  rfl

theorem IsPattern.head?_ne (pattern : IsPattern cs q) :
    cs.head? ≠ some '?' := by
  intro mark
  obtain ⟨cs', rfl⟩ := List.head?_eq_some_iff.mp mark
  cases pattern.reads with
  | done gap => cases gap
  | element gap read =>
    rw [Flags.dropGap_of_initial (rfl : Progress.initial.flags = .initial)]
      at gap
    cases gap
    cases read

theorem IsPattern.head?_ne_brace (pattern : IsPattern cs q) :
    cs.head? ≠ some '\x7b' := by
  intro brace
  obtain ⟨cs', rfl⟩ := List.head?_eq_some_iff.mp brace
  cases pattern.reads with
  | done gap => cases gap
  | element gap read =>
    rw [Flags.dropGap_of_initial (rfl : Progress.initial.flags = .initial)]
      at gap
    cases gap
    obtain ⟨bounds, -, repeats⟩ := bind_ok_iff.mp read
    obtain ⟨p, repeats, -⟩ := bind_ok_iff.mp repeats
    cases repeats

/-- A pattern does not start with what would go on with a repetition in front of
it. -/
theorem IsPattern.stops (pattern : IsPattern cs q) :
    Flags.initial.Stops cs := by
  cases cs with
  | nil => trivial
  | cons c cs =>
    exact ⟨fun same => pattern.head?_ne (congrArg some same),
      fun same => pattern.head?_ne_brace (congrArg some same), nofun⟩

theorem Flags.Stops.append (h : Flags.initial.Stops cs)
    (h' : Flags.initial.Stops ds) :
    Flags.initial.Stops (cs ++ ds) := by
  cases cs with
  | nil => exact h'
  | cons c cs => exact h

theorem IsPattern.head?_close_ne (pattern : IsPattern cs q) :
    (cs ++ ')' :: ds).head? ≠ some '?' := by
  cases cs with
  | nil => exact fun other => absurd (Option.some.inj other) (by decide)
  | cons c cs => exact pattern.head?_ne

theorem readPattern_openCapture (flags : base.flags = .initial)
    (plain : cs.head? ≠ some '?') :
    readPattern base 0 ('(' :: cs) = readPattern base.openCapture 0 cs := by
  have read : readElementAt base '(' cs = .ok (base.openCapture, cs) := by
    change readGroup base cs = _
    rw [readGroup_eq, Flags.dropGap_of_initial flags, readOpening.eq_def]
    split
    · exact absurd rfl plain
    · rfl
  rw [readPattern_element (Flags.dropGap_of_initial flags _), read]
  rfl

theorem readPattern_openGroup (flags : base.flags = .initial) :
    readPattern base 0 ('(' :: '?' :: ':' :: cs)
      = readPattern (base.openGroup none .initial) 0 cs := by
  have read : readElementAt base '(' ('?' :: ':' :: cs)
      = .ok (base.openGroup none .initial, cs) := by
    change readGroup base ('?' :: ':' :: cs) = _
    rw [readGroup_eq, Flags.dropGap_of_initial flags]
    change readFlagGroup base (':' :: cs) = _
    simp only [readFlagGroup, flags]
    rfl
  rw [readPattern_element (Flags.dropGap_of_initial flags _), read]
  rfl

/-- A pattern in a group that records its match. -/
theorem readPattern_capture (pattern : Enclosable cs q)
    (flags : base.flags = .initial)
    (fresh : ∀ name ∈ q.names, name ∉ base.names) (ds : List Char) :
    readPattern base 0 ('(' :: (cs ++ ')' :: ds))
      = readPattern (base.capture q) 0 ds := by
  rw [readPattern_openCapture flags pattern.head?_close_ne]
  exact readPattern_close base.openCapture pattern flags rfl fresh rfl ds

/-- A pattern in a group that records nothing. -/
theorem readPattern_wrapped (pattern : Enclosable cs q)
    (flags : base.flags = .initial)
    (fresh : ∀ name ∈ q.names, name ∉ base.names) (ds : List Char) :
    readPattern base 0 (wrapped cs ++ ds) = readPattern (base.wrap q) 0 ds := by
  have whole : wrapped cs ++ ds = '(' :: '?' :: ':' :: (cs ++ ')' :: ds) := by
    simp [wrapped]
  rw [whole, readPattern_openGroup flags]
  rw [readPattern_close (base.openGroup none .initial) pattern rfl rfl
    fresh rfl ds]
  simp only [Progress.openGroup, Progress.wrap, Progress.around, flags]
  rfl

/-- The names of a pattern in a group that records its match are new if the
whole can be read. -/
theorem fresh_of_capture (pattern : IsPattern cs q)
    (flags : base.flags = .initial)
    (ok : readPattern base 0 ('(' :: (cs ++ ')' :: ds)) = .ok final) :
    ∀ name ∈ q.names, name ∉ base.names := by
  rw [readPattern_openCapture flags pattern.head?_close_ne] at ok
  exact pattern.reads.fresh_of_ok base.openCapture flags rfl
    (stops_close _ ds) ok

/-! ## Whole texts -/

theorem Expr.shift_zero (e : Expr) : e.shift 0 = e := by
  induction e with
  | empty | char | byte | anchor => rfl
  | sequence a b left right | choice a b left right => rw [shift, left, right]
  | repetition body least most greedy ih => rw [shift, ih]
  | group index body ih => cases index <;> rw [shift, ih] <;> rfl

theorem readPattern_start (cs : List Char) :
    readPattern .initial 0 ('^' :: cs)
      = readPattern (Progress.initial.push (.anchor .textStart)) 0 cs := by
  have gap : Progress.initial.flags.dropGap ('^' :: cs) = '^' :: cs :=
    Flags.dropGap_of_initial rfl _
  rw [readPattern_element gap]
  rfl

/-- An expression between anchors. -/
def Expr.whole (e : Expr) : Expr :=
  .sequence (.anchor .textStart) (.sequence (.group none e) (.anchor .textEnd))

/-- A pattern between anchors, with what it comes to. -/
theorem ofText?_anchored (pattern : Enclosable cs q) :
    Expr.ofText? ('^' :: (wrapped cs ++ ['$']))
      = .ok q.branches.close.whole := by
  rw [Expr.ofText?, readPattern_start,
    readPattern_wrapped pattern rfl (fun _ _ => List.not_mem_nil)]
  change Except.ok (Expr.whole (q.branches.close.shift 0)) = _
  rw [Expr.shift_zero]

/-- Where blanks and comments count a pattern has no open comment at its end. -/
theorem IsPattern.enclosable_of_flags (pattern : IsPattern cs q)
    (flags : q.flags.verbose = false) :
    Enclosable cs q := by
  refine ⟨pattern, pattern.reads.host.resolve_right fun ⟨verbose, _⟩ => ?_⟩
  rw [flags] at verbose
  cases verbose

/-- A pattern with an open comment at its end does not stand between anchors. -/
theorem IsPattern.enclosable (pattern : IsPattern cs q) {e : Expr}
    (ok : Expr.ofText? ('^' :: (wrapped cs ++ ['$'])) = .ok e) :
    Enclosable cs q := by
  refine ⟨pattern, pattern.reads.host.resolve_right fun ⟨_, open_⟩ => ?_⟩
  have whole : wrapped cs ++ ['$'] = '(' :: '?' :: ':' ::
    (cs ++ [')', '$']) := by simp [wrapped]
  let base :=
    (Progress.initial.push (.anchor .textStart)).openGroup none .initial
  have read : readPattern base 0 (cs ++ [')', '$']) = .ok (base.host q) :=
    open_ base (.inl rfl) (fun _ _ => List.not_mem_nil) _ (stops_close _ _)
      (by decide)
  have inside : (base.host q).opened.isEmpty = false := by
    rw [Progress.host, pattern.complete]
    rfl
  rw [Expr.ofText?, readPattern_start, whole,
    readPattern_openGroup rfl, read] at ok
  change (base.host q).finish = _ at ok
  rw [Progress.finish, inside] at ok
  cases ok

end

end Lexigram.Pattern
