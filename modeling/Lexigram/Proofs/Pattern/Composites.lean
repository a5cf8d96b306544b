import Lexigram.Proofs.Pattern.Choices
import Lexigram.Proofs.Pattern.Language

/-!
Patterns put together. A pattern that leaves the flags as they are, names no
group and looks at nothing around it can be a part of others (`IsPart`). Parts
in sequence match words of the one with words of the other behind them
(`SpellsRun.append`), parts with a bar between them the words of both
(`Spells.bar`), and a part in a group with a repetition sign repeated words
(`Spells.repeated`).
-/

namespace Lexigram.Pattern

open scoped Computability

/-! ## Languages of what is read -/

namespace Expr

theorem language_shift (k : Nat) (e : Expr) :
    (e.shift k).language = e.language := by
  induction e with
  | empty | char | byte | anchor => rfl
  | sequence a b left right | choice a b left right =>
    simp only [shift, language, left, right]
  | repetition body least most greedy ih => simp only [shift, language, ih]
  | group index body ih => exact ih

theorem anchorFree_shift (k : Nat) (e : Expr) :
    (e.shift k).anchorFree = e.anchorFree := by
  induction e with
  | empty | char | byte | anchor => rfl
  | sequence a b left right | choice a b left right =>
    simp only [shift, anchorFree, left, right]
  | repetition body least most greedy ih => exact ih
  | group index body ih => exact ih

theorem language_ofSequence (es : List Expr) :
    (ofSequence es).language = (es.map language).prod := by
  induction es with
  | nil => rfl
  | cons e es ih =>
    cases es with
    | nil => exact (mul_one _).symm
    | cons e' es => exact congrArg (e.language * ·) ih

theorem anchorFree_ofSequence (es : List Expr) :
    (ofSequence es).anchorFree = es.all anchorFree := by
  induction es with
  | nil => rfl
  | cons e es ih =>
    cases es with
    | nil => exact (Bool.and_true _).symm
    | cons e' es => exact congrArg (e.anchorFree && ·) ih

theorem language_foldl_choice (es : List Expr) (e : Expr) :
    (es.foldl (fun behind e => .choice e behind) e).language
      = (es.map language).sum + e.language := by
  induction es generalizing e with
  | nil => exact (zero_add _).symm
  | cons e' es ih =>
    rw [List.foldl_cons, ih, language, List.map_cons, List.sum_cons]
    ac_rfl

theorem anchorFree_foldl_choice (es : List Expr) (e : Expr) :
    (es.foldl (fun behind e => .choice e behind) e).anchorFree
      = (es.all anchorFree && e.anchorFree) := by
  induction es generalizing e with
  | nil => rfl
  | cons e' es ih =>
    rw [List.foldl_cons, ih, anchorFree, List.all_cons]
    ac_rfl

end Expr

namespace Branches

variable (b c : Branches) (k : Nat)

/-- The expressions in the sequence in progress, in the order in which they
stand. -/
def expressions : List Expr :=
  b.items.reverse.filterMap id

theorem language_close :
    b.close.language = (b.finished.map Expr.language).sum
      + (b.expressions.map Expr.language).prod := by
  rw [close, Expr.language_foldl_choice, sequence, Expr.language_ofSequence]
  rfl

theorem anchorFree_close :
    b.close.anchorFree = (b.finished.all Expr.anchorFree
      && b.expressions.all Expr.anchorFree) := by
  rw [close, Expr.anchorFree_foldl_choice, sequence, Expr.anchorFree_ofSequence]
  rfl

theorem expressions_onto :
    (b.onto c).expressions = c.expressions ++ b.expressions := by
  rw [expressions, onto, List.reverse_append, List.filterMap_append]
  rfl

theorem shift_zero : b.shift 0 = b := by
  have same : Expr.shift 0 = id := funext Expr.shift_zero
  rw [shift, same, Option.map_id, List.map_id, List.map_id]

variable {b c}

/-- Two sequences in one. -/
theorem language_close_onto (none : b.finished = []) (none' : c.finished = []) :
    (b.onto c).close.language = c.close.language * b.close.language := by
  rw [language_close, language_close, language_close, expressions_onto, onto,
    none, none']
  simp only [List.append_nil, List.map_nil, List.sum_nil, zero_add,
    List.map_append, List.prod_append]

theorem anchorFree_close_onto : (b.onto c).close.anchorFree
    = (c.close.anchorFree && b.close.anchorFree) := by
  rw [anchorFree_close, anchorFree_close, anchorFree_close,
    expressions_onto, onto]
  simp only [List.all_append]
  ac_rfl

theorem finished_onto_next : (b.onto c.next).finished
    = b.finished ++ Expr.ofSequence c.expressions :: c.finished :=
  rfl

theorem expressions_onto_next :
    (b.onto c.next).expressions = b.expressions := by
  rw [expressions_onto]
  rfl

/-- Alternatives behind those that are complete. -/
theorem language_close_onto_next :
    (b.onto c.next).close.language = c.close.language + b.close.language := by
  rw [language_close, language_close, language_close,
    finished_onto_next, expressions_onto_next]
  simp only [List.map_append, List.sum_append, List.map_cons,
    List.sum_cons, Expr.language_ofSequence]
  ac_rfl

theorem anchorFree_close_onto_next :
    (b.onto c.next).close.anchorFree
      = (c.close.anchorFree && b.close.anchorFree) := by
  rw [anchorFree_close, anchorFree_close, anchorFree_close,
    finished_onto_next, expressions_onto_next]
  simp only [List.all_append, List.all_cons, Expr.anchorFree_ofSequence]
  ac_rfl

end Branches

/-! ## Parts -/

theorem Progress.initial_host {q : Progress} (complete : q.opened = []) :
    Progress.initial.host q = q := by
  obtain ⟨flags, branches, opened, groups, names⟩ := q
  obtain rfl : opened = [] := complete
  have same : branches.onto .empty = branches := by
    rw [Branches.onto, Branches.empty, List.append_nil, List.append_nil]
  simp only [host, place, placeOpened, initial, List.isEmpty_nil, if_true,
    Branches.shift_zero, same, Nat.add_zero, List.append_nil]

/-- A pattern without names is read where another one ended, if it has no
alternatives or starts a sequence. -/
theorem Enclosable.readPattern_behind {ds : List Char}
    {r base : Progress} (own : Enclosable ds r) (nameless : r.names = [])
    (flags : base.flags = .initial) (fits : base.Fits r) :
    readPattern base 0 ds = .ok (base.host r) := by
  have fresh : ∀ name ∈ r.names, name ∉ base.names := by
    rw [nameless]
    exact List.forall_mem_nil _
  have closed := own.closed base fits fresh [] trivial
  rwa [Progress.host_initial flags, List.append_nil] at closed

/-- Two sequences in one, where each has no alternatives. -/
theorem Progress.host_sequence {q r : Progress} (complete : r.opened = [])
    (bare : q.branches.finished = []) (bare' : r.branches.finished = []) :
    (q.host r).branches.finished = [] ∧
      (q.host r).branches.close.language
      = q.branches.close.language * r.branches.close.language ∧
        (q.host r).branches.close.anchorFree
        = (q.branches.close.anchorFree && r.branches.close.anchorFree) := by
  have branches : (q.host r).branches
      = (r.branches.shift q.groups).onto q.branches := by
    rw [Progress.host, complete]
    rfl
  have none : (r.branches.shift q.groups).finished = [] := by
    rw [Branches.shift, bare', List.map_nil]
  rw [branches]
  refine ⟨?_, ?_, ?_⟩
  · rw [Branches.onto, none, bare]
    rfl
  · rw [Branches.language_close_onto none bare,
      Branches.close_shift, Expr.language_shift]
  · rw [Branches.anchorFree_close_onto,
      Branches.close_shift, Expr.anchorFree_shift]

/-- A pattern that can be a part of others: it leaves the flags as they are,
names no group and looks at nothing around it. -/
structure IsPart (cs : List Char) (q : Progress) :
    Prop extends IsPattern cs q where
  flags : q.flags = .initial
  nameless : q.names = []
  free : q.branches.close.anchorFree

namespace IsPart

variable {cs ds : List Char} {q r base : Progress}

theorem enclosable (part : IsPart cs q) : Enclosable cs q :=
  part.toIsPattern.enclosable_of_flags (by rw [part.flags]; rfl)

theorem fresh (part : IsPart cs q) (base : Progress) :
    ∀ name ∈ q.names, name ∉ base.names := by
  rw [part.nameless]
  exact List.forall_mem_nil _

theorem of_readPattern (read : readPattern .initial 0 cs = .ok q)
    (complete : q.opened = []) (flags : q.flags = .initial)
    (nameless : q.names = []) (free : q.branches.close.anchorFree) :
    IsPart cs q :=
  ⟨⟨reads_of_readPattern read, complete⟩, flags, nameless, free⟩

/-- Behind a part the text goes on as it does by itself. -/
theorem readPattern_append (part : IsPart cs q)
    (stops : Flags.initial.Stops ds) :
    readPattern .initial 0 (cs ++ ds) = readPattern q 0 ds := by
  have closed := part.enclosable.closed .initial (.inl rfl) (part.fresh _) ds
    (part.flags ▸ stops)
  rwa [Progress.host_initial rfl, Progress.initial_host part.complete] at closed

/-- What stands in front of a part is a part with it. -/
theorem host (part : IsPart ds r)
    (read : readPattern .initial 0 cs = .ok (base.host r))
    (complete : base.opened = []) (nameless : base.names = [])
    (free : (base.host r).branches.close.anchorFree) :
    IsPart cs (base.host r) := by
  refine .of_readPattern read ?_ part.flags ?_ free
  · rw [Progress.host, part.complete]
    exact complete
  · rw [Progress.host, part.nameless, nameless]
    rfl

end IsPart

/-! ## Words of parts -/

/-- Whether a text is a part that matches the words of a language. -/
def Spells (cs : List Char) (l : Language UInt8) : Prop :=
  ∃ q, IsPart cs q ∧ q.branches.close.language = l

/-- Whether a text is such a part without alternatives. -/
def SpellsRun (cs : List Char) (l : Language UInt8) : Prop :=
  ∃ q, IsPart cs q ∧ q.branches.finished = [] ∧ q.branches.close.language = l

section

variable {cs ds : List Char} {l m : Language UInt8}

theorem SpellsRun.spells (h : SpellsRun cs l) : Spells cs l := by
  obtain ⟨q, part, -, language⟩ := h
  exact ⟨q, part, language⟩

theorem SpellsRun.nil : SpellsRun [] 1 :=
  ⟨.initial, .of_readPattern rfl rfl rfl rfl rfl, rfl, rfl⟩

/-- Parts in sequence. -/
theorem SpellsRun.append (h : SpellsRun cs l) (h' : SpellsRun ds m) :
    SpellsRun (cs ++ ds) (l * m) := by
  obtain ⟨q, part, bare, rfl⟩ := h
  obtain ⟨r, part', bare', rfl⟩ := h'
  have fits : q.Fits r :=
    .inr (by rw [Progress.outer, part'.complete]; exact bare')
  have read : readPattern .initial 0 (cs ++ ds) = .ok (q.host r) := by
    rw [part.readPattern_append part'.stops,
      part'.enclosable.readPattern_behind part'.nameless part.flags fits]
  obtain ⟨none, language, free⟩ :=
    Progress.host_sequence part'.complete bare bare'
  refine ⟨_, part'.host read part.complete part.nameless ?_, none, language⟩
  rw [free, part.free, part'.free]
  rfl

/-- Parts with a bar between them. -/
theorem Spells.bar (h : Spells cs l) (h' : Spells ds m) :
    Spells (cs ++ '|' :: ds) (l + m) := by
  obtain ⟨q, part, rfl⟩ := h
  obtain ⟨r, part', rfl⟩ := h'
  let base : Progress := { q with branches := q.branches.next }
  have read : readPattern .initial 0 (cs ++ '|' :: ds) = .ok (base.host r) := by
    have stops : Flags.initial.Stops ('|' :: ds) := ⟨by decide,
      by decide, nofun⟩
    rw [part.readPattern_append stops, readPattern_bar q part.flags]
    exact part'.enclosable.readPattern_behind part'.nameless part.flags
      (.inl rfl)
  have branches : (base.host r).branches
      = (r.branches.shift q.groups).onto q.branches.next := by
    rw [Progress.host, part'.complete]
    rfl
  refine ⟨_, part'.host read part.complete part.nameless ?_, ?_⟩
  · rw [branches, Branches.anchorFree_close_onto_next, Branches.close_shift,
      Expr.anchorFree_shift, part.free, part'.free]
    rfl
  · rw [branches, Branches.language_close_onto_next,
      Branches.close_shift, Expr.language_shift]

/-- A pattern in a group. -/
theorem Enclosable.spellsRun_wrapped {q : Progress} (own : Enclosable cs q)
    (nameless : q.names = []) (free : q.branches.close.anchorFree) :
    SpellsRun (wrapped cs) q.branches.close.language := by
  have fresh : ∀ name ∈ q.names, name ∉ Progress.initial.names :=
    fun _ _ => List.not_mem_nil
  have read : readPattern .initial 0 (Lexigram.wrapped cs)
      = .ok (Progress.initial.wrap q) := by
    have := readPattern_wrapped own rfl fresh []
    rwa [List.append_nil] at this
  refine ⟨_, .of_readPattern read rfl rfl ?_ ?_, rfl, ?_⟩
  · exact (List.append_nil _).trans nameless
  · exact (Expr.anchorFree_shift _ _).trans free
  · exact Expr.language_shift _ _

/-- A part in a group. -/
theorem Spells.wrapped (h : Spells cs l) : SpellsRun (wrapped cs) l := by
  obtain ⟨q, part, rfl⟩ := h
  exact part.enclosable.spellsRun_wrapped part.nameless part.free

/-- A part in a group, with a repetition sign behind it. -/
theorem Spells.repeated (h : Spells cs l) {mark : Char} {least : Nat}
    {most : Option Nat} (repeats : ∀ p, readElementAt p mark []
      = (p.repeatLast least most false).map (·, [])) :
    SpellsRun (Lexigram.wrapped cs ++ [mark]) (Expr.repeated l least most) := by
  obtain ⟨q, part, rfl⟩ := h
  have read : readPattern .initial 0 (Lexigram.wrapped cs ++ [mark]) =
      ((Progress.initial.wrap q).repeatLast least most false) := by
    rw [readPattern_wrapped part.enclosable rfl (part.fresh .initial),
      readPattern_element (Flags.dropGap_of_initial rfl _), repeats]
    rfl
  refine ⟨_, .of_readPattern read rfl rfl ?_ ?_, rfl, ?_⟩
  · exact (List.append_nil _).trans part.nameless
  · exact (Expr.anchorFree_shift _ _).trans part.free
  · exact congrArg (Expr.repeated · least most) (Expr.language_shift _ _)

/-! ## The end of a sequence -/

/-- Whether a text can stand at the end of a sequence and matches the words of a
language there: it can stand between parentheses, names no group, looks at
nothing around it and has no alternatives. The flags may be others behind it. -/
def SpellsLast (cs : List Char) (l : Language UInt8) : Prop :=
  ∃ q, Enclosable cs q ∧ q.names = [] ∧ q.branches.close.anchorFree ∧
    q.branches.finished = [] ∧
    q.branches.close.language = l

theorem SpellsRun.last (h : SpellsRun cs l) : SpellsLast cs l := by
  obtain ⟨q, part, bare, language⟩ := h
  exact ⟨q, part.enclosable, part.nameless, part.free, bare, language⟩

theorem SpellsLast.wrapped (h : SpellsLast cs l) :
    SpellsRun (wrapped cs) l := by
  obtain ⟨q, own, nameless, free, -, rfl⟩ := h
  exact own.spellsRun_wrapped nameless free

/-- A part in front of the end of a sequence. -/
theorem SpellsRun.append_last (h : SpellsRun cs l) (h' : SpellsLast ds m) :
    SpellsLast (cs ++ ds) (l * m) := by
  obtain ⟨q, part, bare, rfl⟩ := h
  obtain ⟨r, own, nameless, free', bare', rfl⟩ := h'
  have fits : q.Fits r :=
    .inr (by rw [Progress.outer, own.complete]; exact bare')
  have fresh : ∀ name ∈ r.names, name ∉ q.names := by
    rw [nameless]
    exact List.forall_mem_nil _
  have read : readPattern .initial 0 (cs ++ ds) = .ok (q.host r) := by
    rw [part.readPattern_append own.stops,
      own.readPattern_behind nameless part.flags fits]
  obtain ⟨none, language, free⟩ :=
    Progress.host_sequence own.complete bare bare'
  have complete : (q.host r).opened = [] := by
    rw [Progress.host, own.complete]
    exact part.complete
  have pattern : IsPattern (cs ++ ds) (q.host r) :=
    ⟨reads_of_readPattern read, complete⟩
  refine ⟨_, ⟨pattern, pattern.reads.host.resolve_right ?_⟩, ?_, ?_,
    none, language⟩
  · -- a comment would go on over a parenthesis, which is found behind the end
    -- of the sequence
    intro h
    have beyond := h.2 .initial (.inl rfl) (fun _ _ => List.not_mem_nil) [')']
      (stops_close _ []) (by decide)
    rw [Progress.host_initial rfl,
      Progress.initial_host complete, List.append_assoc, part.readPattern_append
      (Flags.Stops.append own.stops (stops_close _ [])), ← Progress.host_initial
      part.flags, own.closed q fits fresh [')'] (stops_close _ [])] at beyond
    rw [readPattern_unopened complete] at beyond
    cases beyond
  · rw [Progress.host, nameless, part.nameless]
    rfl
  · rw [free, part.free, free']
    rfl

end

end Lexigram.Pattern
