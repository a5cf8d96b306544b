import Lexigram.Proofs.Lexis.BarScan
import Lexigram.Proofs.Pattern.Vocabulary

/-!
Which bars outside all groups are found. The scan for bars does not read classes
and names of groups as the reader of patterns does: an inner bracket ends a
class for it, and one in a name opens a class. It finds the bars of all patterns
with classes and names that are harmless, which leave it outside all classes and
no deeper in groups, and misses one for each that is not
(`outerBars_found_iff`).
-/

namespace Lexigram

open Pattern

/-! ## Scans and readers -/

/-- Whether a text leaves no scan that is outside all classes in one, and opens
no more groups than it closes. -/
def IsHarmless (text : List Char) : Prop :=
  ∀ depth s, (BarScan.outside depth).run text = some s →
    s.depth ≤ depth ∧ s.inClass = false

/-- Whether a scan outside all classes that counts so many groups as open keeps
up with a reader: this has as many open, and has read no bar outside all
groups. -/
structure BarScan.Tracks (depth : Nat) (p : Progress) : Prop where
  groups : depth ≤ p.opened.length
  single : p.outer.IsSingle

namespace BarScan

namespace Tracks

variable {depth : Nat} {p p' : Progress}

theorem keep (h : Tracks depth p) (opened : p'.opened = p.opened)
    (single : p'.outer.IsSingle) : Tracks depth p' :=
  ⟨opened ▸ h.groups, single⟩

theorem push {e : Expr} (h : Tracks depth p)
    (other : ∀ left right, some e ≠ some (.choice left right)) :
    Tracks depth (p.push e) :=
  h.keep rfl (Progress.isSingle_push h.single other)

/-- The start of a group. -/
theorem opens {text : List Char} {s : BarScan} (h : Tracks depth p)
    (start : OpensGroup p text p') (names : ∀ name ∈ p'.names, IsHarmless name)
    (ran : (outside depth).run ('(' :: text) = some s) :
    ∃ depth', s = outside depth' ∧ Tracks depth' p' := by
  have inside : (outside (depth + 1)).run text = some s := by
    simpa [step, outside] using ran
  have deeper := Nat.add_le_add_right h.groups 1
  cases start with
  | capture =>
    cases inside
    exact ⟨depth + 1, rfl, deeper, h.single⟩
  | @named mark name start valid =>
    have plain : IsPlain mark := by rcases start with rfl | rfl <;> decide
    obtain ⟨inClass, there⟩ := exists_run_name valid.forall_not_mem false
    obtain rfl : inClass = false :=
      (names name List.mem_cons_self _ _ (there (depth + 1))).2
    have angle :=
      run_plain (s := outside (depth + 1)) (by decide : IsPlain ['>']) rfl
    rw [run_append, run_plain plain rfl, Option.bind_some, run_append, outside,
      there, Option.bind_some] at inside
    cases angle.symm.trans inside
    exact ⟨depth + 1, rfl, deeper, h.single⟩
  | @flags letters kind flags =>
    have plain : IsPlain ('?' :: (letters ++ [':'])) :=
      .cons (by decide) (kind.append (by decide))
    cases (run_plain plain rfl).symm.trans inside
    exact ⟨depth + 1, rfl, deeper, h.single⟩
  | @setFlags letters kind flags =>
    have plain : IsPlain ('?' :: letters) := .cons (by decide) kind
    rw [← List.cons_append, run_append, run_plain plain rfl] at inside
    cases inside
    exact ⟨depth, rfl, h.groups, Progress.isSingle_push h.single fun _ _ =>
      (Option.some_ne_none _).symm⟩

/-- Where the scan stays the reader has to stay in its groups. -/
theorem stays {text : List Char} {s : BarScan} (h : Tracks depth p')
    (same : (outside depth).run text = some (outside depth))
    (ran : (outside depth).run text = some s) :
    ∃ depth', s = outside depth' ∧ Tracks depth' p' :=
  ⟨depth, Option.some.inj (ran.symm.trans same), h⟩

theorem stays_plain {text : List Char} {s : BarScan} (h : Tracks depth p')
    (plain : IsPlain text) (ran : (outside depth).run text = some s) :
    ∃ depth', s = outside depth' ∧ Tracks depth' p' :=
  h.stays (run_plain plain rfl) ran

/-- The end of a group. -/
theorem closes {text rest : List Char} {s : BarScan}
    (h : Tracks depth p)
    (read : (do return (← p.closeGroup, text ++ rest) :
      Except PatternFault (Progress × List Char)) = .ok (p', rest))
    (ran : (outside depth).run (')' :: text) = some s) :
    ∃ depth', s = outside depth' ∧ Tracks depth' p' := by
  obtain ⟨p₁, closed, same⟩ := bind_ok_iff.mp read
  obtain ⟨rfl, left⟩ := Prod.mk.inj (Except.ok.inj same)
  obtain rfl : text = [] := by simpa using left
  obtain ⟨groups, single⟩ := Progress.closeGroup_keeps h.single closed
  have inside := h.groups
  exact ⟨depth - 1, by simpa [step, outside] using ran.symm, by omega, single⟩

/-- A bar. It is reported unless the scan counts a group as open, and then the
reader does too. -/
theorem divides {text rest : List Char} {s : BarScan} (h : Tracks depth p)
    (read : (.ok ({ p with branches := p.branches.next }, text ++ rest) :
      Except PatternFault (Progress × List Char))
      = .ok (p', rest))
    (ran : (outside depth).run ('|' :: text) = some s) :
    ∃ depth', s = outside depth' ∧ Tracks depth' p' := by
  obtain ⟨rfl, left⟩ := Prod.mk.inj (Except.ok.inj read)
  obtain rfl : text = [] := by simpa using left
  by_cases outermost : depth = 0
  · simp [step, outside, outermost] at ran
  · obtain ⟨g, opened, groups⟩ := List.exists_cons_of_length_pos
      ((Nat.pos_of_ne_zero outermost).trans_le h.groups)
    have single := h.single
    rw [Progress.outer, groups] at single
    refine Tracks.stays ⟨h.groups, ?_⟩ (by simp [step, outside, outermost]) ran
    rw [Progress.outer, groups]
    exact single

/-- A class. -/
theorem encloses {text rest : List Char} {s : BarScan} (h : Tracks depth p)
    (plain : p.flags.verbose = false) (read : (do
      let (set, rest) ← readClass p.flags ('[' :: (text ++ rest))
      return (p.push (if p.flags.unicode then .char set else .byte set), rest) :
        Except PatternFault (Progress × List Char)) = .ok (p', rest))
    (harmless : IsHarmless ('[' :: text))
    (ran : (outside depth).run ('[' :: text) = some s) :
    ∃ depth', s = outside depth' ∧ Tracks depth' p' := by
  obtain ⟨⟨set, rest'⟩, inside, same⟩ := bind_ok_iff.mp read
  obtain ⟨rfl, rfl⟩ := Prod.mk.inj (Except.ok.inj same)
  have closed : IsClosed ('[' :: text) := (takes_class plain).of_read inside
  obtain ⟨depth', rfl⟩ := run_closed closed rfl ran
  refine ⟨depth', rfl, (harmless depth _ ran).1.trans h.groups,
    Progress.isSingle_push h.single ?_⟩
  split <;> nofun

/-- The repetition of what was read last: behind its sign there are bounds, if
it has any, and `cs`. -/
theorem repeats {least : Nat} {most : Option Nat}
    {c : Char} {text rest bounds cs : List Char} {s : BarScan}
    (h : Tracks depth p) (sign : c ∉ marks) (plain : IsPlain bounds)
    (whole : text ++ rest = bounds ++ cs) (read : (do
      let (lazy, rest) := readLazy cs
      return (← p.repeatLast least most lazy, rest) :
        Except PatternFault (Progress × List Char)) = .ok (p', rest))
    (ran : (outside depth).run (c :: text) = some s) : ∃ depth',
    s = outside depth' ∧ Tracks depth' p' := by
  obtain ⟨p₁, made, same⟩ := bind_ok_iff.mp read
  obtain ⟨rfl, left⟩ := Prod.mk.inj (Except.ok.inj same)
  obtain ⟨opened, single⟩ := Progress.repeatLast_opened h.single made
  obtain ⟨lazy, rfl, kind⟩ :=
    @takes_lazy cs (readLazy cs).1 rest (congrArg Except.ok (Prod.ext rfl left))
  rw [← List.append_assoc] at whole
  obtain rfl := List.append_cancel_right whole
  exact (h.keep opened single).stays_plain (.cons sign (plain.append kind)) ran

/-- A repetition with bounds in braces. -/
theorem counts {text rest : List Char} {s : BarScan} (h : Tracks depth p)
    (plain : p.flags.verbose = false) (read : (do
      let (least, most, rest) ← readBounds p.flags (text ++ rest)
      let (lazy, rest) := readLazy (p.flags.dropGap rest)
      return (← p.repeatLast least most lazy, rest) :
        Except PatternFault (Progress × List Char)) = .ok (p', rest))
    (ran : (outside depth).run ('\x7b' :: text) = some s) : ∃ depth',
    s = outside depth' ∧ Tracks depth' p' := by
  obtain ⟨⟨least, most, rest'⟩, bounds, there⟩ := bind_ok_iff.mp read
  simp only [p.flags.dropGap_eq_self plain] at there
  have pair : readBoundPair p.flags (text ++ rest)
      = .ok ((least, most), rest') := by
    rw [readBoundPair, bounds]
    rfl
  obtain ⟨front, same, kind⟩ := takes_boundPair plain pair
  exact h.repeats (by decide) kind same there ran

/-- An escape. -/
theorem escapes {text rest : List Char} {s : BarScan} (h : Tracks depth p)
    (plain : p.flags.verbose = false) (read : (do
      let (a, rest) ← readEscape p.flags (text ++ rest)
      return (p.push (a.toExpr p.flags), rest) :
        Except PatternFault (Progress × List Char)) = .ok (p', rest))
    (ran : (outside depth).run ('\\' :: text) = some s) : ∃ depth',
    s = outside depth' ∧ Tracks depth' p' := by
  obtain ⟨⟨a, rest'⟩, escape, same⟩ := bind_ok_iff.mp read
  obtain ⟨rfl, rfl⟩ := Prod.mk.inj (Except.ok.inj same)
  exact (h.push (a.toExpr_ne p.flags)).stays
    (run_escape ((takes_escape plain).of_read escape) depth) ran

/-- An expression that is a single character. -/
theorem pushes {c : Char} {e : Expr} {text rest : List Char} {s : BarScan}
    (h : Tracks depth p) (plain : c ∉ ['\\', '[', '(', ')', '|'])
    (other : ∀ left right, some e ≠ some (.choice left right))
    (read : (.ok (p.push e, text ++ rest) :
      Except PatternFault (Progress × List Char)) = .ok (p', rest))
    (ran : (outside depth).run (c :: text) = some s) :
    ∃ depth', s = outside depth' ∧ Tracks depth' p' := by
  obtain ⟨rfl, left⟩ := Prod.mk.inj (Except.ok.inj read)
  obtain rfl : text = [] := by simpa using left
  refine (h.push other).stays ?_ ran
  simp only [List.mem_cons, List.not_mem_nil, or_false, not_or] at plain
  simp [step, outside, plain]

/-- What the scan and the reader keep over an element. -/
theorem element {c : Char} {text rest : List Char}
    {s : BarScan} (h : Tracks depth p) (plain : p.flags.verbose = false)
    (read : readElementAt p c (text ++ rest) = .ok (p', rest))
    (classes : c = '[' → IsHarmless (c :: text))
    (names : ∀ name ∈ p'.names, IsHarmless name)
    (ran : (outside depth).run (c :: text) = some s) :
    ∃ depth', s = outside depth' ∧ Tracks depth' p' := by
  unfold readElementAt at read
  dsimp only at read
  split at read
  · obtain ⟨text', same, start⟩ := exists_of_readGroup plain read
    obtain rfl := List.append_cancel_right same
    exact h.opens start names ran
  · exact h.closes read ran
  · exact h.divides read ran
  · exact h.encloses plain read (classes rfl) ran
  · exact h.repeats (by decide) .nil (List.nil_append _).symm read ran
  · exact h.repeats (by decide) .nil (List.nil_append _).symm read ran
  · exact h.repeats (by decide) .nil (List.nil_append _).symm read ran
  · exact h.counts plain read ran
  · exact h.escapes plain read ran
  · exact h.pushes (by decide) p.flags.dot_ne read ran
  · exact h.pushes (e := .anchor _) (by decide) nofun read ran
  · exact h.pushes (e := .anchor _) (by decide) nofun read ran
  · refine h.pushes ?_ (Atom.toExpr_ne _ p.flags) read ran
    simp_all

end Tracks

end BarScan

/-! ## Bars that are found -/

theorem BarScan.Tracks.reads {classes names : Set (List Char)}
    {p q : Progress} {cs : List Char} {depth : Nat} {s : BarScan}
    (harmless : ∀ text ∈ classes ∪ names, IsHarmless text)
    (reads : ReadsWith classes names p cs q) (h : Tracks depth p)
    (ran : (outside depth).run cs = some s) :
    ∃ depth', s = outside depth' ∧ Tracks depth' q := by
  induction reads generalizing depth with
  | done => exact ⟨depth, (Option.some.inj ran).symm, h⟩
  | @element p p' q c text rest plain read ofClasses ofNames others ih =>
    rw [← List.cons_append, run_append] at ran
    obtain ⟨s', here, behind⟩ := Option.bind_eq_some_iff.mp ran
    obtain ⟨depth', rfl, h'⟩ := h.element plain read
      (fun bracket => harmless _ (.inl (ofClasses bracket)))
      (fun name mem => harmless name (.inr (ofNames name mem))) here
    exact ih h' behind

/-- Where classes and names are harmless no pattern is a choice without a bar
outside all groups. -/
theorem hasOuterBar_of_reads {classes names : Set (List Char)}
    {pattern : List Char} {q : Progress}
    {left right : Expr} (harmless : ∀ text ∈ classes ∪ names, IsHarmless text)
    (reads : ReadsWith classes names .initial pattern q)
    (choice : Expr.ofText? pattern = .ok (.choice left right)) :
    hasOuterBar pattern = true := by
  rw [BarScan.hasOuterBar_eq]
  cases ran : (BarScan.outside 0).run pattern with
  | none => rfl
  | some s =>
    have start : BarScan.Tracks 0 .initial := ⟨Nat.le_refl 0, rfl, nofun⟩
    obtain ⟨_, -, follows⟩ := start.reads harmless reads ran
    rw [reads.ofText?_eq] at choice
    exact absurd choice (Progress.finish_ne follows.single left right)

/-- A class hides no bar if there is no opening parenthesis in it. -/
theorem isHarmless_of_not_mem {text : List Char} (isClass : IsClass text)
    (none : '(' ∉ text) : IsHarmless text := by
  intro depth s ran
  obtain ⟨depth', rfl⟩ := BarScan.run_closed isClass.isClosed rfl ran
  exact ⟨BarScan.depth_le_of_run none ran, rfl⟩

/-! ## Bars that are missed -/

/-- A text that leaves more groups open does so too with groups around it. -/
theorem BarScan.run_nested {text : List Char}
    {depth more : Nat} (around : Nat) (ran : (outside (around + depth)).run text
      = some (outside (around + depth + more))) :
    (outside around).run (nested depth text)
      = some (outside (around + more)) := by
  induction depth generalizing around with
  | zero => exact ran
  | succ depth ih =>
    have inside := ih (around + 1) (by rwa [Nat.add_right_comm around 1 depth])
    have opened : (outside around).step '(' = some (outside (around + 1)) := rfl
    have closed : (outside (around + 1 + more)).run [')']
        = some (outside (around + more)) := by
      rw [Nat.add_right_comm around 1 more]
      rfl
    rw [nested, run_cons, opened, Option.bind_some, run_append, inside,
      Option.bind_some, closed]

theorem exists_missed_class {text : List Char} (isClass : IsClass text)
    (harmful : ¬ IsHarmless text) :
    ∃ pattern q left right, ReadsWith {text} ∅ .initial pattern q ∧
      Expr.ofText? pattern = .ok (.choice left right) ∧
      hasOuterBar pattern = false := by
  have closed := isClass.isClosed
  obtain ⟨inside, set, rfl, read⟩ := isClass
  simp only [IsHarmless, not_forall] at harmful
  obtain ⟨depth, s, ran, deeper⟩ := harmful
  obtain ⟨depth', rfl⟩ := BarScan.run_closed closed rfl ran
  have lt : depth < depth' := by simpa [BarScan.outside] using deeper
  obtain ⟨p, behind, reads⟩ :=
    exists_reads_nested read depth (p := .initial) rfl rfl
  have known : ∀ name ∈ p.names, name ∈ (∅ : Set (List Char)) := by
    simp [behind.names, Progress.initial]
  have whole := reads ['|'] _ (.of_bar (behind.flags ▸ rfl) known
    (.done (behind.flags ▸ rfl)))
  refine ⟨_, _, _, _, whole, whole.ofText?_eq.trans
    (finish_bar behind.opened behind.finished), ?_⟩
  obtain ⟨more, rfl⟩ := Nat.exists_eq_add_of_lt lt
  have deep : (BarScan.outside (0 + depth)).run ('[' :: inside)
      = some (BarScan.outside (0 + depth + (more + 1))) := by
    rw [Nat.zero_add]
    exact ran
  rw [BarScan.hasOuterBar_eq, BarScan.run_append, BarScan.run_nested 0 deep]
  simp [BarScan.step, BarScan.outside]

theorem exists_missed_name {name : List Char} (valid : IsGroupName name)
    (harmful : ¬ IsHarmless name) :
    ∃ pattern q left right, ReadsWith ∅ {name} .initial pattern q ∧
      Expr.ofText? pattern = .ok (.choice left right) ∧
      hasOuterBar pattern = false := by
  have known : ∀ other ∈ [name], other ∈ ({name} : Set (List Char)) :=
    fun _ => List.mem_singleton.mp
  have reads : ReadsWith ∅ {name} .initial
      ('(' :: ('?' :: 'P' :: '<' :: (name ++ ['>']) ++ [')', '|'])) _ :=
    .of_named rfl rfl valid rfl (.of_closed rfl rfl known
      (.of_bar rfl known (.done rfl)))
  refine ⟨_, _, _, _, reads, reads.ofText?_eq.trans (finish_bar rfl rfl), ?_⟩
  simp only [IsHarmless, not_forall] at harmful
  obtain ⟨depth, s, ran, inside⟩ := harmful
  obtain ⟨inClass, there⟩ := BarScan.exists_run_name valid.forall_not_mem false
  obtain rfl := Option.some.inj ((there depth).symm.trans ran)
  obtain rfl : inClass = true := by simpa using inside
  -- the bracket of the name has opened a class, which nothing closes
  have front : (BarScan.outside 0).run ['(', '?', 'P', '<']
    = some (BarScan.outside 1) := rfl
  have behind : BarScan.run ⟨1, true, false⟩ ['>', ')', '|']
    = some ⟨1, true, false⟩ := rfl
  have whole : '(' :: ('?' :: 'P' :: '<' :: (name ++ ['>']) ++ [')', '|'])
      = ['(', '?', 'P', '<'] ++ (name ++ ['>', ')', '|']) := by simp
  rw [BarScan.hasOuterBar_eq, whole, BarScan.run_append,
    front, Option.bind_some, BarScan.run_append, BarScan.outside, there,
    Option.bind_some, behind]
  rfl

/-! ## Sequences -/

/-- Whether a pattern is wrapped wherever it becomes a part of a sequence of
several. -/
def IsWrapped (pattern : List Char) : Prop :=
  ∀ (expand : Expansion) (t : Token SymbolId) (ts : List (Token SymbolId)),
    t.fragment expand = .ok pattern → Token.fragmentAll expand true (t :: ts)
    = (Token.fragmentAll expand true ts).map (wrapped pattern ++ ·)

theorem isWrapped_of_hasOuterBar {pattern : List Char}
    (bar : hasOuterBar pattern = true) : IsWrapped pattern := by
  intro expand t ts made
  rw [Token.fragmentAll, made]
  simp only [bind, Except.bind, if_true, spliced, bar]
  cases Token.fragmentAll expand true ts <;> rfl

/-- **Bars are found where classes and names are harmless.** The patterns that
are choices have bars that are found, and are wrapped, for all patterns with
classes and names from a vocabulary, if and only if each of these is harmless by
itself. -/
theorem outerBars_found_iff {classes names : Set (List Char)}
    (areClasses : ∀ text ∈ classes, IsClass text)
    (areNames : ∀ name ∈ names, IsGroupName name) :
    (∀ pattern q left right, ReadsWith classes names .initial pattern q →
      Expr.ofText? pattern = .ok (.choice left right) →
      hasOuterBar pattern = true ∧ IsWrapped pattern) ↔
      ∀ text ∈ classes ∪ names, IsHarmless text := by
  constructor
  · intro found text mem
    by_contra harmful
    rcases mem with mem | mem
    · obtain ⟨pattern, q, left, right, reads, choice, missed⟩ :=
        exists_missed_class (areClasses text mem) harmful
      have known :=
        reads.mono (Set.singleton_subset_iff.mpr mem) (Set.empty_subset names)
      exact Bool.false_ne_true
        (missed.symm.trans (found pattern q left right known choice).1)
    · obtain ⟨pattern, q, left, right, reads, choice, missed⟩ :=
        exists_missed_name (areNames text mem) harmful
      have known :=
        reads.mono (Set.empty_subset classes) (Set.singleton_subset_iff.mpr mem)
      exact Bool.false_ne_true
        (missed.symm.trans (found pattern q left right known choice).1)
  · intro harmless pattern q left right reads choice
    have found := hasOuterBar_of_reads harmless reads choice
    exact ⟨found, isWrapped_of_hasOuterBar found⟩

theorem outerBars_found_samples :
    IsClass "[()|]".toList ∧ IsClass "[[:alpha:])]".toList ∧
      IsGroupName "a[0]".toList ∧
      hasOuterBar "(?P<a[0]>[()|])|[[:alpha:])]".toList = true ∧
      IsWrapped "(?P<a[0]>[()|])|[[:alpha:])]".toList := by
  have simple : IsClass "[()|]".toList := ⟨_, _, rfl, rfl⟩
  have inner : IsClass "[[:alpha:])]".toList := ⟨_, _, rfl, rfl⟩
  have valid : IsGroupName "a[0]".toList := by decide
  have areClasses :
      ∀ text ∈ ({"[()|]".toList, "[[:alpha:])]".toList} : Set (List Char)),
      IsClass text := by
    rintro _ (rfl | rfl)
    · exact simple
    · exact inner
  have areNames : ∀ name ∈ ({"a[0]".toList} : Set (List Char)),
      IsGroupName name := by
    rintro _ rfl
    exact valid
  have harmless : ∀ text ∈ ({"[()|]".toList,
      "[[:alpha:])]".toList} ∪ {"a[0]".toList} : Set (List Char)),
      IsHarmless text := by
    rintro _ ((rfl | rfl) | rfl)
    · rintro depth s ⟨⟩
      exact ⟨Nat.le_refl depth, rfl⟩
    · exact isHarmless_of_not_mem inner (by decide)
    · rintro depth s ⟨⟩
      exact ⟨Nat.le_refl depth, rfl⟩
  have known : ∀ name ∈ ["a[0]".toList],
      name ∈ ({"a[0]".toList} : Set (List Char)) :=
    fun _ => List.mem_singleton.mp
  have reading : ∃ q,
      ReadsWith {"[()|]".toList, "[[:alpha:])]".toList} {"a[0]".toList} .initial
      ('(' :: ('?' :: 'P' :: '<' :: ("a[0]".toList ++ ['>']) ++
        ('[' :: "()|]".toList ++ ')' :: '|' ::
          ('[' :: "[:alpha:])]".toList ++ [])))) q := by
    constructor
    -- the group with its name, the class in it and its end
    apply ReadsWith.of_named (by rfl) (by rfl) valid (by rfl)
    apply ReadsWith.of_class (by rfl) known (by rfl) (by simp)
    apply ReadsWith.of_closed (by rfl) (by rfl) known
    -- the bar, and the class behind it
    apply ReadsWith.of_bar (by rfl) known
    apply ReadsWith.of_class (by rfl) known (by rfl) (by simp)
    exact .done rfl
  obtain ⟨q, reads⟩ := reading
  exact ⟨simple, inner, valid, (outerBars_found_iff areClasses areNames).mpr
    harmless _ q _ _ reads rfl⟩

/-- A named class ends a class for the scan, so that a parenthesis behind it
opens a group that nothing closes. -/
theorem outerBar_missed :
    (∃ q, ReadsWith Set.univ Set.univ .initial "[[:alpha:](]|b".toList q) ∧
      (∃ left right, Expr.ofText? "[[:alpha:](]|b".toList
        = .ok (.choice left right)) ∧
      hasOuterBar "[[:alpha:](]|b".toList = false ∧
      ∀ expand,
        Alternative.fragment expand [.literal "[[:alpha:](]|b", .literal "c"]
        = .ok "[[:alpha:](]|bc".toList := by
  have known {names : List (List Char)} : ∀ name ∈ names, name ∈ Set.univ :=
    fun _ _ => trivial
  have reads : ∃ q, ReadsWith Set.univ Set.univ .initial
      ('[' :: "[:alpha:](]".toList ++ ['|', 'b']) q := by
    constructor
    apply ReadsWith.of_class (by rfl) known (by rfl) (by trivial)
    apply ReadsWith.of_bar (by rfl) known
    apply ReadsWith.of_single (by rfl) (by rfl) (by decide) known
    exact .done rfl
  exact ⟨reads, ⟨_, _, rfl⟩, rfl, fun _ => rfl⟩

-- a bracket in the name of a group opens a class for the scan
example : hasOuterBar "(?P<a[>x)|b".toList = false := rfl

end Lexigram
