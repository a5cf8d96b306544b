import Lexigram.Proofs.Pattern.Choices

/-!
Patterns put side by side. Behind a pattern that ends with the flags it started
with, and names no group, a reader goes on from where the pattern started: the
same groups are open and the same flags hold (`IsPattern.composable`). This does
not depend on what is around the pattern, alternatives included: what a pattern
needs of its reader it needs by itself already (`Progress.Outdoes`). Texts of
this kind stay of this kind in sequence, with bars between them, in groups and
behind anchors, and each of them is a pattern by itself.
-/

namespace Lexigram.Pattern

/-! ## Readers that can do more -/

/-- Whether there is something to be repeated. -/
def Branches.HasOperand (b : Branches) : Prop :=
  ∃ e items, b.items = some e :: items

/-- A reader that can go on wherever another one can: the flags are the same, it
has the other one's open groups, in front of those in `around`, and it has
something to be repeated if the other one has. -/
structure Progress.Outdoes (around : List OpenGroup) (p p' : Progress) :
    Prop where
  flags : p'.flags = p.flags
  opened : ∃ inner, p'.opened = inner ++ around ∧
    inner.map (·.flags) = p.opened.map (·.flags)
  operand : p.branches.HasOperand → p'.branches.HasOperand

section

variable {around : List OpenGroup} {p p' q : Progress}

theorem Branches.hasOperand_push (b : Branches) (e : Expr) :
    (b.push e).HasOperand :=
  ⟨e, b.items, rfl⟩

theorem Branches.not_hasOperand_nil {finished : List Expr} :
    ¬ (⟨finished, []⟩ : Branches).HasOperand := by
  intro h
  obtain ⟨e, items, same⟩ := h
  cases same

theorem Branches.not_hasOperand_none {finished : List Expr}
    {items : List (Option Expr)} :
    ¬ (⟨finished, none :: items⟩ : Branches).HasOperand := by
  intro h
  obtain ⟨e, items, same⟩ := h
  cases same

theorem Progress.outdoes_initial (flags : p.flags = .initial) :
    Progress.Outdoes p.opened .initial p where
  flags := flags
  opened := ⟨[], rfl, rfl⟩
  operand := fun h => absurd h Branches.not_hasOperand_nil

/-- Of the two readers each may open a group, with the same flags in it. -/
theorem Progress.Outdoes.openGroup (h : Progress.Outdoes around p p')
    (index index' : Option Nat) (flags : Flags) :
    Progress.Outdoes around (p.openGroup index flags)
      (p'.openGroup index' flags) where
  flags := rfl
  opened := by
    obtain ⟨inner, opened, same⟩ := h.opened
    exact ⟨⟨index', p'.flags, p'.branches⟩ :: inner, congrArg _ opened,
      congrArg₂ List.cons h.flags same⟩
  operand := fun h => absurd h Branches.not_hasOperand_nil

/-- A move that one reader can make the other one can make too. -/
theorem Move.apply_outdoes {move : Move} (h : Progress.Outdoes around p p')
    (made : move.apply p = .ok q) (nameless : q.names = []) :
    ∃ q', move.apply p' = .ok q' ∧ Progress.Outdoes around q q' := by
  have ⟨flags, ⟨inner, opened, same⟩, operand⟩ := h
  cases apply_eq_ok_iff.mp made with
  | @push e groupless =>
    exact ⟨p'.push e, rfl, flags, ⟨inner, opened, same⟩,
      fun _ => p'.branches.hasOperand_push e⟩
  | next =>
    exact ⟨_, rfl, flags, ⟨inner, opened, same⟩,
      fun h => absurd h Branches.not_hasOperand_nil⟩
  | @close g outer groups =>
    -- the innermost groups have the same flags around them
    rw [groups, List.map_cons] at same
    obtain ⟨g', inner, rfl⟩ : ∃ g' inner', inner = g' :: inner' := by
      cases inner with
      | nil => cases same
      | cons g' inner => exact ⟨g', inner, rfl⟩
    rw [List.map_cons] at same
    obtain ⟨flags', others⟩ := List.cons.inj same
    refine ⟨_, apply_eq_ok_iff.mpr (.close opened), flags',
      ⟨inner, rfl, others⟩, ?_⟩
    exact fun _ => g'.around.hasOperand_push _
  | capture =>
    have both :=
      h.openGroup (some (p.groups + 1)) (some (p'.groups + 1)) p.flags
    exact ⟨_, rfl, flags, both.opened, both.operand⟩
  | named new => cases nameless
  | @openGroup new => exact ⟨_, rfl, h.openGroup none none new⟩
  | setFlags =>
    exact ⟨_, rfl, rfl, ⟨inner, opened, same⟩,
      fun h => absurd h Branches.not_hasOperand_none⟩
  | @repeatLast least most lazy e items last =>
    obtain ⟨e', items', last'⟩ := operand ⟨e, items, last⟩
    refine ⟨_, apply_eq_ok_iff.mpr (.repeatLast last'), flags,
      ⟨inner, opened, same⟩, ?_⟩
    exact fun _ => ⟨_, items', rfl⟩

/-- A text that one reader can go over the other one can go over too, whatever
follows that cannot be taken for a part of it. -/
theorem Reads.outdoes {cs ds : List Char} (reads : Reads p cs q)
    (nameless : q.names = []) (blanks : q.flags.verbose = false)
    (stops : q.flags.Stops ds) (h : Progress.Outdoes around p p') :
    ∃ q', readPattern p' 0 (cs ++ ds) = readPattern q' 0 ds ∧
      Progress.Outdoes around q q' := by
  induction reads generalizing p' with
  | @done p cs gap =>
    -- where blanks count nothing is left out at the end
    rw [Flags.dropGap, if_neg (by simp [blanks])] at gap
    subst gap
    exact ⟨p', rfl, h⟩
  | @element p p₁ q c cs cs' rest gap read others ih =>
    have noneNamed : p₁.names = [] :=
      List.subset_nil.mp (nameless ▸ others.before.names)
    have same : readElementAt p c (cs' ++ ds) = .ok (p₁, rest ++ ds) := by
      rcases (readsElement p c read).2 with same | ⟨verbose, -, rfl, -⟩
      · exact same ds (others.left_or_stops stops)
      · rw [← others.of_nil, blanks] at verbose
        cases verbose
    obtain ⟨move, made, moves⟩ := exists_move same
    obtain ⟨p₁', made', h'⟩ := Move.apply_outdoes h made noneNamed
    obtain ⟨q', read', outdoes⟩ := ih nameless blanks stops h'
    refine ⟨q', ?_, outdoes⟩
    have gap' : p'.flags.dropGap (cs ++ ds) = c :: (cs' ++ ds) := by
      have :=
        p.flags.dropGap_append (by rw [gap]; exact List.cons_ne_nil c cs') ds
      rwa [gap, ← h.flags] at this
    rw [readPattern_element gap', moves p' h.flags, made']
    exact read'

end

/-! ## Texts that can be put side by side -/

/-- A text that a reader goes over wherever it stands: behind it the flags and
the open groups are those in front of it, and it is not taken for a part of what
stands in front. -/
structure Composable (cs : List Char) : Prop where
  stops : Flags.initial.Stops cs
  through : ∀ p : Progress, p.flags = .initial → ∀ ds, Flags.initial.Stops ds →
    ∃ q, (q.flags = .initial ∧ q.opened = p.opened) ∧
    readPattern p 0 (cs ++ ds) = readPattern q 0 ds

section

variable {cs ds : List Char} {p q : Progress}

/-- A pattern that leaves the flags as they are and names no group. -/
theorem IsPattern.composable (pattern : IsPattern cs q)
    (flags : q.flags = .initial) (nameless : q.names = []) :
    Composable cs where
  stops := pattern.stops
  through := by
    intro p initial ds stops
    obtain ⟨q', read, outdoes⟩ := pattern.reads.outdoes nameless
      (by rw [flags]; rfl) (by rwa [flags]) (Progress.outdoes_initial initial)
    obtain ⟨inner, opened, same⟩ := outdoes.opened
    rw [pattern.complete, List.map_nil, List.map_eq_nil_iff] at same
    exact ⟨q',
      ⟨outdoes.flags.trans flags, by rw [opened, same, List.nil_append]⟩, read⟩

theorem stops_initial {c : Char} (mark : c ≠ '?') (brace : c ≠ '\x7b') :
    Flags.initial.Stops (c :: cs) :=
  ⟨mark, brace, nofun⟩

namespace Composable

theorem nil : Composable [] where
  stops := trivial
  through := fun p flags _ _ => ⟨p, ⟨flags, rfl⟩, rfl⟩

/-- What starts like a text and is gone over in the same way. -/
theorem append (h : Composable cs) (h' : Composable ds) :
    Composable (cs ++ ds) where
  stops := h.stops.append h'.stops
  through := by
    intro p flags es stops
    obtain ⟨q, ⟨flags', opened⟩, read⟩ :=
      h.through p flags (ds ++ es) (h'.stops.append stops)
    obtain ⟨r, ⟨flags'', opened'⟩, read'⟩ := h'.through q flags' es stops
    exact ⟨r, ⟨flags'', opened'.trans opened⟩,
      by rw [List.append_assoc, read, read']⟩

theorem bar : Composable ['|'] where
  stops := stops_initial (by decide) (by decide)
  through := by
    intro p flags ds _
    exact ⟨{ p with branches := p.branches.next }, ⟨flags, rfl⟩,
      readPattern_bar p flags ds⟩

theorem intercalate_bar {css : List (List Char)}
    (h : ∀ cs ∈ css, Composable cs) :
    Composable (['|'].intercalate css) := by
  induction css with
  | nil => exact nil
  | cons cs css ih =>
    obtain ⟨first, others⟩ := List.forall_mem_cons.mp h
    cases css with
    | nil => simpa using first
    | cons cs' css =>
      have whole : ['|'].intercalate (cs :: cs' :: css)
          = cs ++ (['|'] ++ ['|'].intercalate (cs' :: css)) := by
        simp [List.intercalate]
      rw [whole]
      exact first.append (bar.append (ih others))

/-! ### Groups -/

/-- A parenthesis behind a text closes the group around it. -/
theorem close (h : Composable cs) (flags : p.flags = .initial)
    {g : OpenGroup} {opened : List OpenGroup} (groups : p.opened = g :: opened)
    (ds : List Char) :
    ∃ q, (q.flags = g.flags ∧ q.opened = opened) ∧ q.branches.HasOperand ∧
      readPattern p 0 (cs ++ ')' :: ds) = readPattern q 0 ds := by
  obtain ⟨q, ⟨flags', opened'⟩, read⟩ :=
    h.through p flags (')' :: ds) (stops_close _ ds)
  let closed : Progress :=
    { q with
      flags := g.flags, opened, branches := g.around.push
        (.group g.index q.branches.close) }
  have here : q.closeGroup = .ok closed := by
    rw [Progress.closeGroup, opened', groups]
  refine ⟨closed, ⟨rfl, rfl⟩, g.around.hasOperand_push _, ?_⟩
  have element : readElementAt q ')' ds = .ok (closed, ds) := by
    simp only [readElementAt, here]
    rfl
  rw [read, readPattern_element (Flags.dropGap_of_initial flags' _), element]
  rfl

/-- A text in a group that records nothing leaves something to be repeated. -/
theorem through_wrapped (h : Composable cs) (flags : p.flags = .initial)
    (ds : List Char) :
    ∃ q, (q.flags = .initial ∧ q.opened = p.opened) ∧ q.branches.HasOperand ∧
      readPattern p 0 (Lexigram.wrapped cs ++ ds) = readPattern q 0 ds := by
  obtain ⟨q, ⟨flags', opened⟩, operand, read⟩ :=
    h.close (p := p.openGroup none .initial) rfl rfl ds
  refine ⟨q, ⟨flags'.trans flags, opened⟩, operand, ?_⟩
  rw [← read, ← readPattern_openGroup flags]
  simp [Lexigram.wrapped]

theorem wrapped (h : Composable cs) : Composable (Lexigram.wrapped cs) where
  stops := stops_initial (by decide) (by decide)
  through := by
    intro p flags ds _
    obtain ⟨q, kept, -, read⟩ := h.through_wrapped flags ds
    exact ⟨q, kept, read⟩

/-- A text in a group that records its match. -/
theorem captured (h : Composable cs) : Composable ('(' :: (cs ++ [')'])) where
  stops := stops_initial (by decide) (by decide)
  through := by
    intro p flags ds _
    have plain : (cs ++ ')' :: ds).head? ≠ some '?' := by
      cases cs with
      | nil => exact fun same => absurd (Option.some.inj same) (by decide)
      | cons c cs => exact fun same => h.stops.1 (Option.some.inj same)
    obtain ⟨q, ⟨flags', opened⟩, -, read⟩ :=
      h.close (p := p.openCapture) flags rfl ds
    refine ⟨q, ⟨flags'.trans flags, opened⟩, ?_⟩
    rw [← read, ← readPattern_openCapture flags plain]
    simp

/-- A text in a group, with a repetition sign behind it. -/
theorem repeated (h : Composable cs) (mark : Char) (least : Nat)
    (most : Option Nat) (repeats : ∀ p ds, readElementAt p mark ds =
      (p.repeatLast least most (readLazy ds).1).map (·, (readLazy ds).2)) :
    Composable (Lexigram.wrapped cs ++ [mark]) where
  stops := stops_initial (by decide) (by decide)
  through := by
    intro p flags ds stops
    obtain ⟨q, ⟨flags', opened⟩, ⟨e, items, last⟩, read⟩ :=
      h.through_wrapped flags (mark :: ds)
    have greedy : readLazy ds = (false, ds) := by
      cases ds with
      | nil => rfl
      | cons d ds => simp [readLazy, stops.1]
    obtain ⟨r, again, kept⟩ : ∃ r, q.repeatLast least most false = .ok r ∧
        r.flags = q.flags ∧ r.opened = q.opened := by
      rw [Progress.repeatLast, last]
      exact ⟨_, rfl, rfl, rfl⟩
    refine ⟨r, ⟨kept.1.trans flags', kept.2.trans opened⟩, ?_⟩
    rw [List.append_assoc, List.singleton_append, read, readPattern_element
      (Flags.dropGap_of_initial flags' _), repeats, greedy, again]
    rfl

theorem times (h : Composable cs) (m : Multiplicity) :
    Composable (Lexigram.wrapped cs ++ m.suffix) := by
  cases m with
  | one =>
    rw [Multiplicity.suffix, List.append_nil]
    exact h.wrapped
  | optional => exact h.repeated '?' 0 (some 1) fun _ _ => rfl
  | zeroOrMore => exact h.repeated '*' 0 none fun _ _ => rfl
  | oneOrMore => exact h.repeated '+' 1 none fun _ _ => rfl

theorem choiceOf {css : List (List Char)} (h : ∀ cs ∈ css, Composable cs) :
    Composable (choiceOf css) := by
  induction css with
  | nil => exact nil
  | cons cs css ih =>
    obtain ⟨first, others⟩ := List.forall_mem_cons.mp h
    cases css with
    | nil => exact first.captured
    | cons cs' css =>
      have whole : Pattern.choiceOf (cs :: cs' :: css) =
          '(' :: (cs ++ [')']) ++ (['|'] ++ Pattern.choiceOf (cs' :: css)) := by
        simp [Pattern.choiceOf]
      rw [whole]
      exact first.captured.append (bar.append (ih others))

/-! ### Whole patterns -/

theorem of_readPattern (read : readPattern .initial 0 cs = .ok q)
    (complete : q.opened = []) (flags : q.flags = .initial)
    (nameless : q.names = []) : Composable cs :=
  IsPattern.composable ⟨reads_of_readPattern read, complete⟩ flags nameless

theorem anchored (h : Composable cs) :
    Composable ('^' :: (Lexigram.wrapped cs ++ ['$'])) := by
  have start : Composable ['^'] := of_readPattern rfl rfl rfl rfl
  have finish : Composable ['$'] := of_readPattern rfl rfl rfl rfl
  exact start.append (h.wrapped.append finish)

/-- Such a text is a pattern by itself. -/
theorem exists_ofText? (h : Composable cs) : ∃ e, Expr.ofText? cs = .ok e := by
  obtain ⟨q, ⟨-, complete⟩, read⟩ := h.through .initial rfl [] trivial
  refine ⟨q.branches.close, ?_⟩
  rw [List.append_nil] at read
  rw [Expr.ofText?, read]
  show q.finish = _
  rw [Progress.finish, complete]
  rfl

end Composable

end

end Lexigram.Pattern
