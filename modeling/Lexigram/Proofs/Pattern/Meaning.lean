import Lexigram.Proofs.Pattern.Alternatives
import Lexigram.Proofs.Pattern.Enclosed

/-!
What patterns mean. `Expr.Matches` says from where to where an expression
matches in a text, without saying which of several matches is preferred. A
program has a match at a position exactly if its expression has one from there
on, and stops where one does (`Expr.matches_of_threadAt?`,
`Expr.threadAt?_eq_none_iff`). The code of an expression is followed along walks
from its first instruction to the one behind it: these are what the expression
means (`Expr.means_code`).
-/

namespace Lexigram.Pattern

/-- A relation a number of times in a row. -/
def Times (R : Nat → Nat → Prop) : Nat → Nat → Nat → Prop
  | 0, i, j => i = j
  | n + 1, i, k => ∃ j, R i j ∧ Times R n j k

theorem times_add {R : Nat → Nat → Prop} {m n i k : Nat} :
    Times R (m + n) i k ↔ ∃ j, Times R m i j ∧ Times R n j k := by
  induction m generalizing i with
  | zero => simp [Times]
  | succ m ih =>
    rw [Nat.add_right_comm]
    simp only [Times, ih]
    constructor
    · rintro ⟨j, first, j', others, last⟩
      exact ⟨j', ⟨j, first, others⟩, last⟩
    · rintro ⟨j', ⟨j, first, others⟩, last⟩
      exact ⟨j, first, j', others, last⟩

theorem times_one {R : Nat → Nat → Prop} {i j : Nat} :
    Times R 1 i j ↔ R i j := by
  simp [Times]

/-- What an expression matches in a text, from one position up to another. -/
def Expr.Matches (text : List UInt8) : Expr → Nat → Nat → Prop
  | empty, i, j => i = j
  | char set, i, j =>
    ∃ c n, Text.charAtFront? (text.drop i) = some (c, n) ∧
      set.contains c.toNat ∧ j = i + n
  | byte set, i, j => ∃ b, text[i]? = some b ∧ set.contains b.toNat ∧ j = i + 1
  | anchor a, i, j => a.holds (text.take i).reverse (text.drop i) ∧ i = j
  | sequence a b, i, k => ∃ j, a.Matches text i j ∧ b.Matches text j k
  | choice a b, i, j => a.Matches text i j ∨ b.Matches text i j
  | repetition body least most _, i, j =>
    ∃ n, least ≤ n ∧ (∀ m ∈ most, n ≤ least + (m - least)) ∧
      Times (body.Matches text) n i j
  | group _ body, i, j => body.Matches text i j

theorem Times.le {R : Nat → Nat → Prop}
    {length n i j : Nat} (step : ∀ i j, i ≤ length → R i j → i ≤ j ∧ j ≤ length)
    (inside : i ≤ length) (h : Times R n i j) :
    i ≤ j ∧ j ≤ length := by
  induction n generalizing i with
  | zero =>
    obtain rfl : i = j := h
    exact ⟨Nat.le_refl _, inside⟩
  | succ n ih =>
    obtain ⟨k, first, others⟩ := h
    obtain ⟨lower, inside'⟩ := step i k inside first
    exact ⟨lower.trans (ih inside' others).1, (ih inside' others).2⟩

/-- An expression matches up to a position that is not in front, and in the
text. -/
theorem Expr.Matches.le {text : List UInt8} {e : Expr} {i j : Nat}
    (inside : i ≤ text.length) (h : e.Matches text i j) :
    i ≤ j ∧ j ≤ text.length := by
  induction e generalizing i j with
  | empty =>
    obtain rfl : i = j := h
    exact ⟨Nat.le_refl _, inside⟩
  | char set =>
    obtain ⟨c, n, front, -, rfl⟩ := h
    have := Text.length_le_of_charAtFront? front
    rw [List.length_drop] at this
    omega
  | byte set =>
    obtain ⟨b, here, -, rfl⟩ := h
    have := (List.getElem?_eq_some_iff.mp here).1
    omega
  | anchor a =>
    obtain ⟨-, rfl⟩ := h
    exact ⟨Nat.le_refl _, inside⟩
  | sequence a b left right =>
    obtain ⟨k, first, second⟩ := h
    obtain ⟨lower, inside'⟩ := left inside first
    exact ⟨lower.trans (right inside' second).1, (right inside' second).2⟩
  | choice a b left right => exact h.elim (left inside) (right inside)
  | repetition body least most greedy ih =>
    obtain ⟨n, -, -, times⟩ := h
    exact times.le (fun i j inside here => ih inside here) inside
  | group index body ih => exact ih inside h

/-! ## Walks through a program -/

/-- The thread at a point. -/
def Thread.at (text : List UInt8) (x : Point) : Thread :=
  (Compiled.startAt text x.2).goto x.1

/-- An instruction leads from one point to another. -/
def Instruction.Leads (text : List UInt8) (i : Instruction)
    (x y : Point) : Prop :=
  y ∈ ((Thread.at text x).step i).map Thread.point

/-- A program leads from one point to another. -/
def Next (program : Array Instruction) (text : List UInt8)
    (x y : Point) : Prop :=
  ∃ i, program[x.1]? = some i ∧ i.Leads text x y

/-- A walk through a program whose steps are made between two addresses. -/
inductive Walk (program : Array Instruction) (text : List UInt8)
    (first last : Nat) : Point → Point → Prop
  | done (x : Point) : Walk program text first last x x
  | step {x y z : Point} (lower : first ≤ x.1) (upper : x.1 < last)
      (next : Next program text x y)
      (others : Walk program text first last y z) :
      Walk program text first last x z

/-- What is between two addresses goes on there or right behind. -/
def Region (program : Array Instruction) (text : List UInt8)
    (first last : Nat) : Prop :=
  ∀ x y, first ≤ x.1 → x.1 < last → Next program text x y →
    first ≤ y.1 ∧ y.1 ≤ last

namespace Walk

variable {program : Array Instruction} {text : List UInt8}
  {first last first' last' : Nat} {x y z : Point}

theorem mono (h : Walk program text first last x y) (lower : first' ≤ first)
    (upper : last ≤ last') :
    Walk program text first' last' x y := by
  induction h with
  | done => exact .done _
  | step l u next _ ih =>
    exact .step (lower.trans l) (Nat.lt_of_lt_of_le u upper) next ih

theorem trans (h : Walk program text first last x y)
    (h' : Walk program text first last y z) :
    Walk program text first last x z := by
  induction h with
  | done => exact h'
  | step l u next _ ih => exact .step l u next (ih h')

/-- A walk leaves a region at its end. -/
theorem split (region : Region program text first' last')
    (h : Walk program text first last x z) (start : first' ≤ x.1 ∧ x.1 ≤ last')
    (ends : last' ≤ z.1) :
    ∃ o, Walk program text first' last' x (last', o) ∧
      Walk program text first last (last', o) z := by
  induction h with
  | done x =>
    obtain rfl : last' = x.1 := Nat.le_antisymm ends start.2
    exact ⟨x.2, .done _, .done _⟩
  | @step x y z lower upper next others ih =>
    rcases Nat.lt_or_eq_of_le start.2 with inside | rfl
    · obtain ⟨o, front, back⟩ := ih (region x y start.1 inside next) ends
      exact ⟨o, .step start.1 inside next front, back⟩
    · exact ⟨x.2, .done _, .step lower upper next others⟩

/-- A walk stays in a region. -/
theorem restrict (region : Region program text first' last)
    (h : Walk program text first last x z) (start : first' ≤ x.1) :
    Walk program text first' last x z := by
  induction h with
  | done => exact .done _
  | @step x y z lower upper next others ih =>
    exact .step start upper next (ih (region x y start upper next).1)

/-- Behind its last address a walk is at its end. -/
theorem eq_of_le (h : Walk program text first last x z) (ends : last ≤ x.1) :
    x = z := by
  cases h with
  | done => rfl
  | step lower upper => omega

theorem exists_next (h : Walk program text first last x z) (other : x.1 ≠ z.1) :
    ∃ y, Next program text x y ∧ Walk program text first last y z := by
  cases h with
  | done => exact absurd rfl other
  | step lower upper next others => exact ⟨_, next, others⟩

end Walk

/-! ### What instructions do -/

namespace Instruction

variable {text : List UInt8} {pc i : Nat} {y : Point}

theorem leads_char {set : CharSet} : (char set).Leads text (pc, i) y ↔
    ∃ c n, Text.charAtFront? (text.drop i) = some (c, n) ∧
    set.contains c.toNat ∧ y = (pc + 1, i + n) := by
  simp only [Leads, Thread.at, Thread.step, Thread.goto, Compiled.startAt]
  cases Text.charAtFront? (text.drop i) with
  | none => simp
  | some found =>
    obtain ⟨c, n⟩ := found
    by_cases inside : set.contains c.toNat
      <;> simp [inside, Thread.point, Thread.take]

theorem leads_byte {set : CharSet} : (byte set).Leads text (pc, i) y ↔
    ∃ b, text[i]? = some b ∧ set.contains b.toNat ∧ y = (pc + 1, i + 1) := by
  have front : text[i]? = (text.drop i).head? := by rw [List.head?_drop]
  simp only [Leads, Thread.at, Thread.step, Thread.goto,
    Compiled.startAt, front]
  cases text.drop i with
  | nil => simp
  | cons b bytes =>
    by_cases inside : set.contains b.toNat
      <;> simp [inside, Thread.point, Thread.take]

theorem leads_anchor {a : Anchor} : (anchor a).Leads text (pc, i) y ↔
    a.holds (text.take i).reverse (text.drop i) ∧ y = (pc + 1, i) := by
  simp only [Leads, Thread.at, Thread.step, Thread.goto, Compiled.startAt]
  by_cases holds : a.holds (text.take i).reverse (text.drop i)
    <;> simp [holds, Thread.point]

theorem leads_save {slot : Nat} :
    (save slot).Leads text (pc, i) y ↔ y = (pc + 1, i) := by
  simp [Leads, Thread.at, Thread.step, Thread.goto,
    Compiled.startAt, Thread.point]

theorem leads_split {left right : Nat} : (split left right).Leads text (pc, i) y
    ↔ y = (left, i) ∨ y = (right, i) := by
  simp [Leads, Thread.at, Thread.step, Thread.goto,
    Compiled.startAt, Thread.point]

theorem leads_branch {greedy : Bool} {inside outside : Nat} :
    (Code.branch greedy inside outside).Leads text (pc, i) y ↔
      y = (inside, i) ∨ y = (outside, i) := by
  cases greedy
  · exact leads_split.trans or_comm
  · exact leads_split

theorem leads_jump {target : Nat} :
    (jump target).Leads text (pc, i) y ↔ y = (target, i) := by
  simp [Leads, Thread.at, Thread.step, Thread.goto,
    Compiled.startAt, Thread.point]

theorem not_leads_accept {x : Point} : ¬ accept.Leads text x y := by
  simp [Leads, Thread.step]

/-- Where an instruction leads that stays between two addresses. -/
theorem StaysIn.of_leads {first last : Nat} {x : Point} {j : Instruction}
    (stays : j.StaysIn first last) (lower : first ≤ x.1) (upper : x.1 < last)
    (leads : j.Leads text x y) : first ≤ y.1 ∧ y.1 ≤ last := by
  obtain ⟨t, next, rfl⟩ := List.mem_map.mp leads
  exact Thread.pc_of_step stays lower upper next

end Instruction

/-! ## What code means -/

theorem region_of_contained (text : List UInt8) {program : Array Instruction}
    {base : Nat} {c : Code} (contained : c.Contained)
    (code : HasCode program base (c base)) :
    Region program text base (base + (c base).length) := by
  rintro x y lower upper ⟨i, here, leads⟩
  have place := code (x.1 - base) (by omega)
  rw [Nat.add_sub_cancel' lower, here] at place
  exact (contained base i (List.mem_of_getElem? place.symm)).of_leads lower
    upper leads

/-- Code means a relation if walks through it, wherever it stands in a program,
lead from where to where it says. -/
def Code.Means (text : List UInt8) (c : Code) (R : Nat → Nat → Prop) : Prop :=
  ∀ program base, HasCode program base (c base) → ∀ i j, R i j ↔
    Walk program text base (base + (c base).length) (base, i)
    (base + (c base).length, j)

namespace Code.Means

variable {text : List UInt8} {c d : Code} {R S : Nat → Nat → Prop}

theorem congr (h : Means text c R) (same : ∀ i j, S i j ↔ R i j) :
    Means text c S :=
  fun program base code i j => (same i j).trans (h program base code i j)

theorem skip : Means text skip Eq := by
  intro program base _ i j
  constructor
  · rintro rfl
    exact .done _
  · intro walk
    exact (Prod.mk.inj (walk.eq_of_le (Nat.le_refl _))).2

theorem single {i : Instruction} (leads : ∀ pc o y, i.Leads text (pc, o) y ↔
      ∃ o', R o o' ∧ y = (pc + 1, o')) : Means text (single i) R := by
  intro program base code o o'
  have here : program[base]? = some i := code.head
  constructor
  · intro related
    exact .step (Nat.le_refl _) (Nat.lt_succ_self _)
      ⟨i, here, (leads base o _).mpr ⟨o', related, rfl⟩⟩ (.done _)
  · intro walk
    obtain ⟨y, ⟨j, there, goes⟩, others⟩ :=
      walk.exists_next (Nat.ne_of_lt (Nat.lt_succ_self _))
    cases here.symm.trans there
    obtain ⟨o'', related, rfl⟩ := (leads base o y).mp goes
    exact (Prod.mk.inj (others.eq_of_le (Nat.le_refl _))).2 ▸ related

theorem append (h : Means text c R) (h' : Means text d S)
    (contained : c.Contained) (contained' : d.Contained) :
    Means text (c.append d) fun i k => ∃ j, R i j ∧ S j k := by
  intro program base code i k
  have first : HasCode program base (c base) := code.left
  have second : HasCode program (base + (c base).length)
    (d (base + (c base).length)) := code.right
  have length : base + ((c.append d) base).length
      = base + (c base).length + (d (base + (c base).length)).length := by
    simp only [Code.append, List.length_append, Nat.add_assoc]
  rw [length]
  constructor
  · rintro ⟨j, here, there⟩
    exact (((h program base first i j).mp here).mono (Nat.le_refl _)
      (Nat.le_add_right _ _)).trans (((h' program _ second j k).mp there).mono
      (Nat.le_add_right _ _) (Nat.le_refl _))
  · intro walk
    obtain ⟨j, front, back⟩ :=
      walk.split (region_of_contained text contained first)
        ⟨Nat.le_refl _, Nat.le_add_right _ _⟩ (Nat.le_add_right _ _)
    exact ⟨j, (h program base first i j).mpr front,
      (h' program _ second j k).mpr (back.restrict
        (region_of_contained text contained' second) (Nat.le_refl _))⟩

theorem choose (h : Means text c R) (h' : Means text d S)
    (contained : c.Contained) (contained' : d.Contained) :
    Means text (c.choose d) fun i j => R i j ∨ S i j := by
  intro program base code i j
  simp only [Code.choose] at code ⊢
  have split := code.head
  have first := code.tail.left
  have jump := code.tail.right.head
  have second := code.tail.right.tail
  generalize whole : base + (_ : List Instruction).length = last
  simp only [List.length_cons, List.length_append] at whole
  rw [show base + 1 + (c (base + 1)).length + 1
    = base + (c (base + 1)).length + 2 by omega] at second
  generalize place : base + (c (base + 1)).length + 2 = middle at *
  have behind : middle + (d middle).length = last := by omega
  have leads {y : Point} : Next program text (base, i) y ↔
      y = (base + 1, i) ∨ y = (middle, i) := by
    constructor
    · rintro ⟨_, here, goes⟩
      cases split.symm.trans here
      exact Instruction.leads_split.mp goes
    · exact fun either => ⟨_, split, Instruction.leads_split.mpr either⟩
  have leave {o : Nat} {y : Point} : Next program text
      (base + 1 + (c (base + 1)).length, o) y ↔ y = (last, o) := by
    constructor
    · rintro ⟨_, here, goes⟩
      cases jump.symm.trans here
      exact behind ▸ Instruction.leads_jump.mp goes
    · rintro rfl
      exact ⟨_, jump, Instruction.leads_jump.mpr (by rw [behind])⟩
  have region := region_of_contained text contained first
  have region' := region_of_contained text contained' second
  have own := h program _ first i j
  have own' := h' program _ second i j
  rw [behind] at region' own'
  constructor
  · rintro (here | there)
    · refine .step (Nat.le_refl _) (by simp only; omega)
        (leads.mpr (.inl rfl)) ?_
      refine ((own.mp here).mono (by omega) (by omega)).trans ?_
      exact .step (by simp only; omega) (by simp only; omega) (leave.mpr rfl)
        (.done _)
    · refine .step (Nat.le_refl _) (by simp only; omega)
        (leads.mpr (.inr rfl)) ?_
      exact (own'.mp there).mono (by omega) (Nat.le_refl _)
  · intro walk
    obtain ⟨y, next, others⟩ := walk.exists_next (by simp only; omega)
    -- neither side goes on in the other: both are left at their ends alone, the
    -- first over the jump
    rcases leads.mp next with rfl | rfl
    · obtain ⟨o, inside, back⟩ := others.split region
        ⟨Nat.le_refl _, Nat.le_add_right _ _⟩ (by simp only; omega)
      obtain ⟨y, next, others⟩ := back.exists_next (by simp only; omega)
      obtain rfl := leave.mp next
      obtain ⟨-, rfl⟩ := Prod.mk.inj (others.eq_of_le (Nat.le_refl _))
      exact .inl (own.mpr inside)
    · exact .inr (own'.mpr (others.restrict region' (Nat.le_refl _)))

theorem optional (greedy : Bool) (h : Means text c R)
    (contained : c.Contained) :
    Means text (optional greedy c) fun i j => R i j ∨ i = j := by
  intro program base code i j
  simp only [Code.optional] at code ⊢
  have branch := code.head
  have body := code.tail
  generalize whole : base + (_ : List Instruction).length = last
  simp only [List.length_cons] at whole
  have behind : base + 1 + (c (base + 1)).length = last := by omega
  have leads {y : Point} : Next program text (base, i) y ↔
      y = (base + 1, i) ∨ y = (last, i) := by
    constructor
    · rintro ⟨_, here, goes⟩
      cases branch.symm.trans here
      exact behind ▸ Instruction.leads_branch.mp goes
    · exact fun either =>
        ⟨_, branch, Instruction.leads_branch.mpr (by rwa [behind])⟩
  have region := region_of_contained text contained body
  have own := h program _ body i j
  rw [behind] at region own
  constructor
  · rintro (here | rfl)
    · refine .step (Nat.le_refl _) (by simp only; omega)
        (leads.mpr (.inl rfl)) ?_
      exact (own.mp here).mono (by omega) (Nat.le_refl _)
    · exact .step (Nat.le_refl _) (by simp only; omega) (leads.mpr (.inr rfl))
        (.done _)
  · intro walk
    obtain ⟨y, next, others⟩ := walk.exists_next (by simp only; omega)
    rcases leads.mp next with rfl | rfl
    · exact .inl (own.mpr (others.restrict region (Nat.le_refl _)))
    · exact .inr (Prod.mk.inj (others.eq_of_le (Nat.le_refl _))).2

theorem many (greedy : Bool) (h : Means text c R) (contained : c.Contained) :
    Means text (many greedy c) fun i j => ∃ n, Times R (n + 1) i j := by
  intro program base code i j
  have body : HasCode program base (c base) := code.left
  have branch := code.right.head
  have length : base + ((Code.many greedy c) base).length
      = base + (c base).length + 1 := by
    simp only [Code.many, List.length_append,
      List.length_singleton, Nat.add_assoc]
  rw [length]
  generalize last : base + (c base).length = middle at *
  have leads {o : Nat} {y : Point} :
      Next program text (middle, o) y ↔
        y = (base, o) ∨ y = (middle + 1, o) := by
    constructor
    · rintro ⟨_, here, goes⟩
      cases branch.symm.trans here
      exact Instruction.leads_branch.mp goes
    · exact fun either => ⟨_, branch, Instruction.leads_branch.mpr either⟩
  have region := region_of_contained text contained body
  have own (o o' : Nat) := h program _ body o o'
  rw [last] at region
  simp only [last] at own
  constructor
  · rintro ⟨n, times⟩
    induction n generalizing i with
    | zero =>
      refine (((own i j).mp (times_one.mp times)).mono (Nat.le_refl _)
        (Nat.le_succ _)).trans ?_
      exact .step (by simp only; omega) (Nat.lt_succ_self _)
        (leads.mpr (.inr rfl)) (.done _)
    | succ n ih =>
      obtain ⟨o, first, others⟩ := times
      refine (((own i o).mp first).mono (Nat.le_refl _)
        (Nat.le_succ _)).trans ?_
      exact .step (by simp only; omega) (Nat.lt_succ_self _)
        (leads.mpr (.inl rfl)) (ih o others)
  · -- from anywhere in the body a walk goes on to the end of the body, and then
    -- goes through it some times more
    intro walk
    have rounds : ∃ o, Walk program text base middle (base, i) (middle, o) ∧
        ∃ n, Times R n o j := by
      have start : base ≤ (base, i).1 ∧ (base, i).1 ≤ middle :=
        ⟨Nat.le_refl _, by simp only; omega⟩
      generalize (base, i) = x at walk start
      generalize ends : (middle + 1, j) = z at walk
      induction walk with
      | done x =>
        subst ends
        exact absurd start.2 (Nat.not_succ_le_self _)
      | @step x y z lower upper next others ih =>
        rcases Nat.lt_or_eq_of_le start.2 with inside | there
        · obtain ⟨o, walk, n, times⟩ := ih (region x y start.1 inside next) ends
          exact ⟨o, .step start.1 inside next walk, n, times⟩
        · obtain ⟨pc, o⟩ := x
          obtain rfl : pc = middle := there
          refine ⟨o, .done _, ?_⟩
          rcases leads.mp next with rfl | rfl
          · obtain ⟨o', walk, n, times⟩ :=
              ih ⟨Nat.le_refl _, by simp only; omega⟩ ends
            exact ⟨n + 1, o', (own o o').mpr walk, times⟩
          · cases (others.eq_of_le (Nat.le_refl _)).trans ends.symm
            exact ⟨0, rfl⟩
    obtain ⟨o, walk, n, times⟩ := rounds
    exact ⟨n, o, (own i o).mpr walk, times⟩

theorem times (h : Means text c R) (contained : c.Contained) (n : Nat) :
    Means text (c.times n) (Times R n) := by
  induction n with
  | zero => exact skip
  | succ n ih =>
    exact h.append ih contained
      (@Code.Compatible.times _ c c Contained.compatible contained n)

theorem upTo (greedy : Bool) (h : Means text c R) (contained : c.Contained)
    (n : Nat) :
    Means text (upTo greedy c n) fun i j => ∃ k ≤ n, Times R k i j := by
  have within (n : Nat) : Contained (Code.upTo greedy c n) :=
    @Code.Compatible.upTo _ c c Contained.compatible greedy contained n
  induction n with
  | zero => exact skip.congr fun i j => by simp [Times]
  | succ n ih =>
    refine ((h.append ih contained (within n)).optional greedy
      (contained.append (within n))).congr fun i j => ?_
    constructor
    · rintro ⟨k, le, times⟩
      cases k with
      | zero => exact .inr times
      | succ k =>
        obtain ⟨o, first, others⟩ := times
        exact .inl ⟨o, first, k, Nat.le_of_succ_le_succ le, others⟩
    · rintro (⟨o, first, k, le, others⟩ | rfl)
      · exact ⟨k + 1, Nat.succ_le_succ le, o, first, others⟩
      · exact ⟨0, Nat.zero_le _, rfl⟩

theorem repetition (least : Nat) (most : Option Nat) (greedy : Bool)
    (h : Means text c R) (contained : c.Contained) :
    Means text (repetition least most greedy c) fun i j =>
      ∃ n, least ≤ n ∧ (∀ m ∈ most, n ≤ least + (m - least)) ∧
          Times R n i j := by
  have within (n : Nat) : Contained (c.times n) :=
    @Code.Compatible.times _ c c Contained.compatible contained n
  cases most with
  | some most =>
    refine ((h.times contained least).append (h.upTo greedy contained
      (most - least)) (within least) (@Code.Compatible.upTo _ c c
      Contained.compatible greedy contained _)).congr fun i j => ?_
    simp only [Option.mem_def, Option.some.injEq, forall_eq']
    constructor
    · rintro ⟨n, lower, upper, times⟩
      rw [← Nat.add_sub_cancel' lower, times_add] at times
      obtain ⟨o, first, others⟩ := times
      exact ⟨o, first, n - least, by omega, others⟩
    · rintro ⟨o, first, k, le, others⟩
      exact ⟨least + k, Nat.le_add_right _ _, Nat.add_le_add_left le _,
        times_add.mpr ⟨o, first, others⟩⟩
  | none =>
    cases least with
    | zero =>
      -- any number of times is at least once, or not at all
      refine ((h.many greedy contained).optional greedy
        (contained.many greedy)).congr fun i j => ?_
      constructor
      · rintro ⟨n, -, -, times⟩
        cases n with
        | zero => exact .inr times
        | succ n => exact .inl ⟨n, times⟩
      · rintro (⟨n, times⟩ | rfl)
        · exact ⟨n + 1, Nat.zero_le _, nofun, times⟩
        · exact ⟨0, Nat.le_refl _, nofun, rfl⟩
    | succ least =>
      refine ((h.times contained least).append (h.many greedy contained)
        (within least) (contained.many greedy)).congr fun i j => ?_
      constructor
      · rintro ⟨n, lower, -, times⟩
        rw [show n = least + (n - least - 1 + 1) by omega, times_add] at times
        obtain ⟨o, first, others⟩ := times
        exact ⟨o, first, _, others⟩
      · rintro ⟨o, first, n, others⟩
        exact ⟨least + (n + 1), by omega, nofun,
          times_add.mpr ⟨o, first, others⟩⟩

end Code.Means

/-- The code of an expression means what the expression matches. -/
theorem Expr.means_code (text : List UInt8) (e : Expr) :
    e.code.Means text (e.Matches text) := by
  induction e with
  | empty => exact .skip
  | char set =>
    refine .single fun pc o y => Instruction.leads_char.trans ?_
    simp only [Matches]
    constructor
    · rintro ⟨c, n, front, inside, rfl⟩
      exact ⟨_, ⟨c, n, front, inside, rfl⟩, rfl⟩
    · rintro ⟨_, ⟨c, n, front, inside, rfl⟩, rfl⟩
      exact ⟨c, n, front, inside, rfl⟩
  | byte set =>
    refine .single fun pc o y => Instruction.leads_byte.trans ?_
    simp only [Matches]
    constructor
    · rintro ⟨b, front, inside, rfl⟩
      exact ⟨_, ⟨b, front, inside, rfl⟩, rfl⟩
    · rintro ⟨_, ⟨b, front, inside, rfl⟩, rfl⟩
      exact ⟨b, front, inside, rfl⟩
  | anchor a =>
    refine .single fun pc o y => Instruction.leads_anchor.trans ?_
    simp only [Matches]
    constructor
    · rintro ⟨holds, rfl⟩
      exact ⟨o, ⟨holds, rfl⟩, rfl⟩
    · rintro ⟨_, ⟨holds, rfl⟩, rfl⟩
      exact ⟨holds, rfl⟩
  | sequence a b left right =>
    exact left.append right a.contained_code b.contained_code
  | choice a b left right =>
    exact left.choose right a.contained_code b.contained_code
  | repetition body least most greedy ih =>
    exact ih.repetition least most greedy body.contained_code
  | group index body ih =>
    cases index with
    | none => exact ih
    | some n =>
      have save (slot : Nat) : (Code.single (.save slot)).Means text Eq :=
        .single fun pc o y => Instruction.leads_save.trans (by simp)
      have saves (slot : Nat) : Code.Contained (.single (.save slot)) :=
        .single fun _ _ => trivial
      refine ((save _).append (ih.append (save _) body.contained_code (saves _))
        (saves _) (body.contained_code.append (saves _))).congr fun i j => ?_
      simp [Matches]

/-! ## What runs find -/

theorem Thread.standsIn_at {text : List UInt8} {x : Point}
    (inside : x.2 ≤ text.length) :
    (Thread.at text x).StandsIn text 0 :=
  (Compiled.standsIn_startAt inside).weaken.goto x.1

/-- Where a thread goes on a program leads. -/
theorem Next.of_step {program : Array Instruction} {text : List UInt8}
    {t t' : Thread} {i : Instruction} (stands : t.StandsIn text 0)
    (here : program[t.pc]? = some i) (next : t' ∈ t.step i) :
    Next program text t.point t'.point := by
  refine ⟨i, here, ?_⟩
  rw [Instruction.Leads, ← Thread.map_point_step stands
    (Thread.standsIn_at stands.offset_le) rfl i]
  exact List.mem_map_of_mem next

/-- A run ends at a point to which a walk leads. -/
theorem Runs.walk {program : Array Instruction} {text : List UInt8}
    {start : Point} {seen seen' : Set Point} {stack : List Thread} {t : Thread}
    (h : Runs program seen stack (some t) seen') (stand : ∀ s ∈ stack,
      s.StandsIn text 0 ∧ Walk program text 0 program.size start s.point) :
    Walk program text 0 program.size start t.point := by
  generalize found : some t = result at h
  induction h with
  | done => cases found
  | again _ _ ih | out _ _ _ ih =>
    exact ih (fun s mem => stand s (.tail _ mem)) found
  | accept =>
    cases found
    exact (stand t (.head _)).2
  | @step seen seen' u stack result i fresh here goesOn others ih =>
    refine ih (fun s mem => ?_) found
    rcases List.mem_append.mp mem with next | behind
    · obtain ⟨stands, walk⟩ := stand u (.head _)
      refine ⟨stands.step next, walk.trans ?_⟩
      exact .step (Nat.zero_le _) (Array.getElem?_eq_some_iff.mp here).1
        (.of_step stands here next) (.done _)
    · exact stand s (.tail _ behind)

/-- From points without a match a program leads to others, or out of itself. -/
theorem Barren.next {program : Array Instruction} {text : List UInt8}
    {points : Set Point} {x y : Point} (barren : Barren program text points)
    (mem : x ∈ points) (inside : x.2 ≤ text.length)
    (next : Next program text x y) :
    y.2 ≤ text.length ∧ (y ∈ points ∨ program[y.1]? = none) := by
  obtain ⟨i, here, leads⟩ := next
  obtain ⟨t', step, rfl⟩ := List.mem_map.mp leads
  have stands := Thread.standsIn_at inside
  refine ⟨(stands.step step).offset_le, ?_⟩
  rcases (barren _ stands mem i here).2 t' step with old | out | ⟨_, none, _⟩
  · exact .inl old
  · exact .inr out
  · cases none

/-- A walk from points without a match goes on in them. -/
theorem Walk.mem_of_barren {program : Array Instruction}
    {text : List UInt8} {points : Set Point} {first last : Nat} {x z : Point}
    (h : Walk program text first last x z) (barren : Barren program text points)
    (region : Region program text first last)
    (filled : ∀ x : Point, first ≤ x.1 → x.1 ≤ last → program[x.1]? ≠ none)
    (start : first ≤ x.1 ∧ x.1 ≤ last) (mem : x ∈ points)
    (inside : x.2 ≤ text.length) :
    z ∈ points ∧ z.2 ≤ text.length := by
  induction h with
  | done => exact ⟨mem, inside⟩
  | @step x y z lower upper next others ih =>
    obtain ⟨inside', mem'⟩ := barren.next mem inside next
    have stays := region x y lower upper next
    exact ih stays (mem'.resolve_right (filled y stays.1 stays.2)) inside'

namespace Expr

variable {e : Expr} {text : List UInt8} {i j : Nat}

theorem hasCode_program (e : Expr) : HasCode e.program 0 (e.code 0) := by
  intro pc inside
  rw [Nat.zero_add, e.program_inside inside]

theorem size_program (e : Expr) : e.program.size = (e.code 0).length + 1 := by
  simp only [program, Code.append, Code.single, List.size_toArray,
    List.length_append, List.length_singleton]

/-- Walks through the code of an expression to its match are what the expression
matches. -/
theorem matches_iff_walk :
    e.Matches text i j ↔ Walk e.program text 0 (e.code 0).length (0, i)
      ((e.code 0).length, j) := by
  have means := e.means_code text e.program 0 e.hasCode_program i j
  rwa [Nat.zero_add] at means

/-- A match is one of the expression. -/
theorem matches_of_threadAt? {t : Thread} (inside : i ≤ text.length)
    (found : e.threadAt? text i = some t) :
    e.Matches text i t.offset := by
  obtain ⟨seen, ran⟩ := e.runs_threadAt? inside
  rw [found] at ran
  have walk : Walk e.program text 0 e.program.size (0, i) t.point := by
    refine ran.walk fun s mem => ?_
    obtain rfl := List.mem_singleton.mp mem
    exact ⟨(Compiled.standsIn_startAt inside).weaken, .done _⟩
  rw [matches_iff_walk]
  have ends : t.point = ((e.code 0).length, t.offset) :=
    Prod.ext (e.pc_of_accept ran.accepts) rfl
  rw [ends] at walk
  -- no step is made at the match
  clear ends ran found
  generalize ((0, i) : Point) = x, ((e.code 0).length, t.offset) = z at walk
  induction walk with
  | done => exact .done _
  | @step x y z lower upper next others ih =>
    obtain ⟨k, here, leads⟩ := next
    rw [e.size_program] at upper
    refine .step lower (Nat.lt_of_le_of_ne (Nat.le_of_lt_succ upper)
      fun last => ?_) ⟨k, here, leads⟩ ih
    rw [last, e.program_end] at here
    cases here
    exact Instruction.not_leads_accept leads

/-- There is no match at a position exactly if the expression matches nothing
from there on. -/
theorem threadAt?_eq_none_iff (inside : i ≤ text.length) :
    e.threadAt? text i = none ↔ ∀ j, ¬ e.Matches text i j := by
  constructor
  · intro none j found
    obtain ⟨seen, ran⟩ := e.runs_threadAt? inside
    rw [none] at ran
    have start : ∀ s ∈ [Compiled.startAt text i], s.StandsIn text 0 := by
      simpa using (Compiled.standsIn_startAt inside).weaken
    obtain ⟨barren, run⟩ :=
      ran.barren start fun _ _ mem => absurd mem (Set.notMem_empty _)
    have here {x : Point} (le : x.1 ≤ (e.code 0).length) :
        e.program[x.1]? ≠ Option.none := by
      have := e.size_program
      simp only [ne_eq, Array.getElem?_eq_none_iff, not_le]
      omega
    have first : ((0, i) : Point) ∈ seen :=
      (run _ List.mem_cons_self).resolve_right
        (here (x := (0, i)) (Nat.zero_le _))
    have region := region_of_contained text e.contained_code e.hasCode_program
    rw [Nat.zero_add] at region
    -- all points of the walk have been run, the match at its end included
    obtain ⟨last, inside'⟩ := (matches_iff_walk.mp found).mem_of_barren barren
      region (fun x _ => here) ⟨Nat.le_refl _, Nat.zero_le _⟩ first inside
    exact (barren (Thread.at text ((e.code 0).length, j))
      (Thread.standsIn_at inside') last _ e.program_end).1 rfl
  · intro none
    cases found : e.threadAt? text i with
    | none => rfl
    | some t => exact absurd (matches_of_threadAt? inside found) (none t.offset)

end Expr

namespace Compiled

variable {e : Expr} {text : List UInt8}

theorem matchAt?_eq_none_iff {i : Nat} (inside : i ≤ text.length) :
    (ofExpr e).matchAt? text i = none ↔ ∀ j, ¬ e.Matches text i j :=
  Option.map_eq_none_iff.trans (Expr.threadAt?_eq_none_iff inside)

theorem matches_of_matchAt? {i : Nat} {m : Match} (inside : i ≤ text.length)
    (found : (ofExpr e).matchAt? text i = some m) :
    m.start = i ∧ e.Matches text i m.stop := by
  obtain ⟨t, ran, rfl⟩ := Option.map_eq_some_iff.mp found
  exact ⟨rfl, Expr.matches_of_threadAt? inside ran⟩

theorem matchesIn_iff : (ofExpr e).matchesIn text = true ↔ ∃ i ≤ text.length,
    ∃ j, e.Matches text i j := by
  rw [matchesIn, ← Option.not_isNone, Bool.not_eq_true', ← Bool.not_eq_true,
    Option.isNone_iff_eq_none, search?_eq_none_iff]
  simp only [not_forall, exists_prop]
  exact exists_congr fun i => and_congr_right fun inside => by
    rw [matchAt?_eq_none_iff inside]
    simp

/-- A pattern between anchors matches the texts that the pattern matches as a
whole. -/
theorem matchesIn_whole_iff :
    (ofExpr e.whole).matchesIn text = true ↔ e.Matches text 0 text.length := by
  simp only [matchesIn_iff, Expr.whole, Expr.Matches, Anchor.holds,
    List.isEmpty_iff, List.reverse_eq_nil_iff, List.drop_eq_nil_iff]
  constructor
  · rintro ⟨i, inside, j, _, ⟨front, rfl⟩, k, here, ends, rfl⟩
    obtain rfl : i = 0 := by
      have := congrArg List.length front
      rw [List.length_take, List.length_nil] at this
      omega
    rwa [Nat.le_antisymm (here.le inside).2 ends] at here
  · intro here
    exact ⟨0, Nat.zero_le _, _, 0, ⟨rfl, rfl⟩, _, here, Nat.le_refl _, rfl⟩

end Compiled

end Lexigram.Pattern
