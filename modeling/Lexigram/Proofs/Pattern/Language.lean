import Lexigram.Proofs.Pattern.Meaning
import Mathlib.Computability.Language

/-!
The language of a pattern. A pattern without anchors does not look at what is
around a match: whether it matches from one position to another depends on the
bytes between them alone (`Expr.localTo_language`), and these bytes are the
words of a language that is made of the languages of the parts.
-/

namespace Lexigram

/-! ## Characters at the front -/

namespace Text

theorem fitting_append {intervals : List (UInt8 × UInt8)} {bytes : List UInt8}
    (more : List UInt8) (full : fitting intervals bytes = intervals.length) :
    fitting intervals (bytes ++ more) = intervals.length := by
  induction bytes generalizing intervals with
  | nil =>
    cases intervals with
    | nil => cases more <;> rfl
    | cons interval intervals => cases full
  | cons b bytes ih =>
    cases intervals with
    | nil => rfl
    | cons interval intervals =>
      obtain ⟨low, high⟩ := interval
      simp only [fitting, List.cons_append, List.length_cons] at full ⊢
      split at full
      · next inside => rw [if_pos inside, ih (Nat.succ_inj.mp full)]
      · cases full

theorem fitting_take (intervals : List (UInt8 × UInt8)) (bytes : List UInt8)
    (k : Nat) :
    fitting intervals (bytes.take k) = min k (fitting intervals bytes) := by
  induction bytes generalizing intervals k with
  | nil => cases intervals <;> simp [fitting]
  | cons b bytes ih =>
    cases k with
    | zero => cases intervals <;> simp [fitting]
    | succ k =>
      cases intervals with
      | nil => simp [fitting]
      | cons interval intervals =>
        rw [List.take_succ_cons, fitting, fitting]
        split
        · rw [ih]
          omega
        · simp

/-- A character at the front is a lead byte with the bytes that have to follow
it. -/
theorem charAtFront?_cons_eq_some {lead : UInt8} {rest : List UInt8} {c : Char}
    {n : Nat} :
    charAtFront? (lead :: rest) = some (c, n) ↔
      ∃ intervals, followers lead = some intervals ∧
      fitting intervals rest = intervals.length ∧ n = intervals.length + 1 ∧
      c = Char.ofNat (codePoint lead (rest.take intervals.length)) := by
  simp only [charAtFront?, head]
  cases followers lead with
  | none => simp
  | some intervals =>
    simp only [Option.some.injEq, exists_eq_left']
    by_cases full : fitting intervals rest = intervals.length
    · simp only [full, if_true, Option.some.injEq, Prod.mk.injEq, true_and]
      constructor
      · rintro ⟨char, length⟩
        exact ⟨length.symm, char.symm⟩
      · rintro ⟨length, char⟩
        exact ⟨char.symm, length.symm⟩
    · rw [if_neg full]
      split
      · next scalar => split at scalar <;> cases scalar
      · simp [full]

theorem charAtFront?_append {bytes : List UInt8} {c : Char} {n : Nat}
    (front : charAtFront? bytes = some (c, n)) (more : List UInt8) :
    charAtFront? (bytes ++ more) = some (c, n) := by
  cases bytes with
  | nil => cases front
  | cons lead rest =>
    obtain ⟨intervals, leads, full, rfl, rfl⟩ :=
      charAtFront?_cons_eq_some.mp front
    have enough : intervals.length ≤ rest.length :=
      full ▸ fitting_le intervals rest
    exact charAtFront?_cons_eq_some.mpr
      ⟨intervals, leads, fitting_append more full, rfl,
        by rw [← List.take_append_of_le_length enough]; rfl⟩

theorem charAtFront?_take {bytes : List UInt8} {c : Char} {n : Nat}
    (front : charAtFront? bytes = some (c, n)) :
    charAtFront? (bytes.take n) = some (c, n) := by
  cases bytes with
  | nil => cases front
  | cons lead rest =>
    obtain ⟨intervals, leads, full, rfl, rfl⟩ :=
      charAtFront?_cons_eq_some.mp front
    refine charAtFront?_cons_eq_some.mpr ⟨intervals, leads, ?_, rfl, ?_⟩
    · rw [fitting_take, full, Nat.min_self]
    · rw [List.take_take, Nat.min_self]

end Text

namespace Pattern

/-! ## Words between positions -/

/-- The bytes of a text from one position up to another. -/
def between (text : List UInt8) (i j : Nat) : List UInt8 :=
  (text.drop i).take (j - i)

theorem length_between {text : List UInt8} {i j : Nat}
    (inside : j ≤ text.length) :
    (between text i j).length = j - i := by
  rw [between, List.length_take, List.length_drop]
  omega

theorem between_append {text : List UInt8} {i j k : Nat} (lower : i ≤ j)
    (upper : j ≤ k) :
    between text i j ++ between text j k = between text i k := by
  have whole : k - i = (j - i) + (k - j) := by omega
  rw [between, between, between, whole, List.take_add, List.drop_drop,
    Nat.add_sub_cancel' lower]

theorem between_self (text : List UInt8) (i : Nat) : between text i i = [] := by
  rw [between, Nat.sub_self, List.take_zero]

theorem between_whole (text : List UInt8) :
    between text 0 text.length = text := by
  rw [between, List.drop_zero, Nat.sub_zero, List.take_length]

/-- A relation between positions is local to a language if it leads just over
the words of the language. -/
def LocalTo (text : List UInt8) (R : Nat → Nat → Prop)
    (l : Language UInt8) : Prop :=
  ∀ i ≤ text.length, ∀ j, R i j ↔ (i ≤ j ∧ j ≤ text.length) ∧
    between text i j ∈ l

namespace LocalTo

variable {text : List UInt8} {R S : Nat → Nat → Prop} {l m : Language UInt8}

theorem one : LocalTo text Eq 1 := by
  intro i inside j
  rw [Language.mem_one, ← List.length_eq_zero_iff]
  constructor
  · rintro rfl
    exact ⟨⟨Nat.le_refl _, inside⟩, by rw [between_self, List.length_nil]⟩
  · rintro ⟨⟨lower, upper⟩, empty⟩
    rw [length_between upper] at empty
    omega

theorem mul (h : LocalTo text R l) (h' : LocalTo text S m) :
    LocalTo text (fun i k => ∃ j, R i j ∧ S j k) (l * m) := by
  intro i inside k
  rw [Language.mem_mul]
  constructor
  · rintro ⟨j, first, second⟩
    obtain ⟨⟨lower, inside'⟩, front⟩ := (h i inside j).mp first
    obtain ⟨⟨lower', upper⟩, back⟩ := (h' j inside' k).mp second
    exact ⟨⟨lower.trans lower', upper⟩, _, front, _, back,
      between_append lower lower'⟩
  · rintro ⟨⟨lower, upper⟩, front, mem, back, mem', whole⟩
    have lengths : front.length + back.length = k - i := by
      rw [← List.length_append, whole, length_between upper]
    have cut : between text i (i + front.length)
        ++ between text (i + front.length) k = between text i k :=
      between_append (Nat.le_add_right _ _) (by omega)
    have short : (between text i (i + front.length)).length = front.length := by
      rw [length_between (by omega), Nat.add_sub_cancel_left]
    obtain ⟨same, same'⟩ := List.append_inj (cut.trans whole.symm) short
    refine ⟨i + front.length, (h i inside _).mpr ⟨by omega, ?_⟩,
      (h' _ (by omega) k).mpr ⟨by omega, ?_⟩⟩
    · rwa [same]
    · rwa [same']

theorem add (h : LocalTo text R l) (h' : LocalTo text S m) :
    LocalTo text (fun i j => R i j ∨ S i j) (l + m) := by
  intro i inside j
  rw [Language.mem_add, and_or_left]
  exact or_congr (h i inside j) (h' i inside j)

theorem pow (h : LocalTo text R l) (n : Nat) :
    LocalTo text (Times R n) (l ^ n) := by
  induction n with
  | zero => exact one
  | succ n ih =>
    rw [pow_succ']
    exact h.mul ih

end LocalTo

/-! ## Languages of expressions -/

namespace Expr

/-- Whether an expression does not look at what is around a match. -/
def anchorFree : Expr → Bool
  | empty | char _ | byte _ => true
  | anchor _ => false
  | sequence a b => a.anchorFree && b.anchorFree
  | choice a b => a.anchorFree && b.anchorFree
  | repetition body _ _ _ => body.anchorFree
  | group _ body => body.anchorFree

/-- Repetitions of words, at least `least` of them and at most `most`. -/
def repeated (l : Language UInt8) (least : Nat) (most : Option Nat) :
    Language UInt8 :=
  { w | ∃ n, least ≤ n ∧ (∀ m ∈ most, n ≤ least + (m - least)) ∧ w ∈ l ^ n }

/-- The words that an expression without anchors matches. -/
def language : Expr → Language UInt8
  | empty => 1
  | char set =>
    { w | ∃ c, Text.charAtFront? w = some (c, w.length) ∧ set.contains c.toNat }
  | byte set => { w | ∃ b, w = [b] ∧ set.contains b.toNat }
  | anchor _ => 0
  | sequence a b => a.language * b.language
  | choice a b => a.language + b.language
  | repetition body least most _ => repeated body.language least most
  | group _ body => body.language

theorem localTo_char (text : List UInt8) (set : CharSet) :
    LocalTo text ((char set).Matches text) (char set).language := by
  intro i inside j
  simp only [Matches]
  constructor
  · rintro ⟨c, n, front, member, rfl⟩
    have upper := Text.length_le_of_charAtFront? front
    rw [List.length_drop] at upper
    refine ⟨⟨Nat.le_add_right _ _, by omega⟩, c, ?_, member⟩
    rw [length_between (by omega), between, Nat.add_sub_cancel_left]
    exact Text.charAtFront?_take front
  · rintro ⟨⟨lower, upper⟩, c, front, member⟩
    rw [length_between upper] at front
    refine ⟨c, j - i, ?_, member, by omega⟩
    rw [← List.take_append_drop (j - i) (text.drop i)]
    exact Text.charAtFront?_append front _

theorem localTo_byte (text : List UInt8) (set : CharSet) :
    LocalTo text ((byte set).Matches text) (byte set).language := by
  intro i inside j
  simp only [Matches]
  constructor
  · rintro ⟨b, here, member, rfl⟩
    obtain ⟨before, rfl⟩ := List.getElem?_eq_some_iff.mp here
    refine ⟨⟨Nat.le_succ _, before⟩, _, ?_, member⟩
    rw [between, Nat.add_sub_cancel_left,
      List.drop_eq_getElem_cons before, List.take_one]
    rfl
  · rintro ⟨⟨lower, upper⟩, b, word, member⟩
    have length := length_between (i := i) upper
    rw [word, List.length_singleton] at length
    refine ⟨b, ?_, member, by omega⟩
    rw [between, ← length, List.take_one, List.head?_drop] at word
    cases here : text[i]? with
    | none => rw [here] at word; cases word
    | some b' => rw [here] at word; cases word; rfl

/-- An expression without anchors matches between two positions exactly the
words of its language. -/
theorem localTo_language {e : Expr} (free : e.anchorFree) (text : List UInt8) :
    LocalTo text (e.Matches text) e.language := by
  induction e with
  | empty => exact .one
  | char set => exact localTo_char text set
  | byte set => exact localTo_byte text set
  | anchor a => cases free
  | sequence a b left right =>
    obtain ⟨freeA, freeB⟩ := Bool.and_eq_true_iff.mp free
    exact (left freeA).mul (right freeB)
  | choice a b left right =>
    obtain ⟨freeA, freeB⟩ := Bool.and_eq_true_iff.mp free
    exact (left freeA).add (right freeB)
  | repetition body least most greedy ih =>
    intro i inside j
    constructor
    · rintro ⟨n, lower, upper, times⟩
      obtain ⟨bounds, mem⟩ := ((ih free).pow n i inside j).mp times
      exact ⟨bounds, n, lower, upper, mem⟩
    · rintro ⟨bounds, n, lower, upper, mem⟩
      exact ⟨n, lower, upper, ((ih free).pow n i inside j).mpr ⟨bounds, mem⟩⟩
  | group index body ih => exact ih free

/-- A text that an expression without anchors matches as a whole is a word of
its language. -/
theorem matches_whole_iff {e : Expr} (free : e.anchorFree) (text : List UInt8) :
    e.Matches text 0 text.length ↔ text ∈ e.language := by
  rw [localTo_language free text 0 (Nat.zero_le _), between_whole]
  exact and_iff_right ⟨Nat.zero_le _, Nat.le_refl _⟩

/-- An expression without anchors that matches nothing at one place of a text
matches the empty text. -/
theorem matches_nil_of_matches_self {e : Expr} (free : e.anchorFree)
    {text : List UInt8} {i : Nat} (inside : i ≤ text.length)
    (here : e.Matches text i i) : e.Matches [] 0 0 := by
  obtain ⟨-, mem⟩ := (localTo_language free text i inside i).mp here
  rw [between_self] at mem
  exact (matches_whole_iff free []).mpr mem

end Expr

end Pattern

end Lexigram
