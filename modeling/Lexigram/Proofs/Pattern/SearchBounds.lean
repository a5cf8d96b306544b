import Lexigram.Pattern.Search

/-!
Where matches lie. Every thread of a search stands in the text that is searched,
at the position the search tries or behind it, so a match starts before it stops
and stops in the text.
-/

namespace Lexigram

theorem Text.length_le_of_charAtFront? {bytes : List UInt8} {c : Char} {n : Nat}
    (h : charAtFront? bytes = some (c, n)) : n ≤ bytes.length := by
  cases bytes with
  | nil => cases h
  | cons lead rest =>
    simp only [charAtFront?] at h
    cases eq : head lead rest with
    | scalar d k =>
      rw [eq] at h
      cases h
      have bound := length_head_le lead rest
      rw [eq] at bound
      exact bound
    | broken k => rw [eq] at h; cases h
    | cut k => rw [eq] at h; cases h

namespace Pattern

/-- How a thread goes on: it takes what is in front of it, holds an anchor,
saves its position or goes elsewhere. -/
inductive Thread.Steps (t : Thread) : Instruction → Thread → Prop
  | char {set : CharSet} {c : Char}
      {n : Nat} (front : Text.charAtFront? t.after = some (c, n))
      (inside : set.contains c.toNat = true) : Steps t (.char set) (t.take n)
  | byte {set : CharSet} {b : UInt8} {bytes : List UInt8}
      (front : t.after = b :: bytes) (inside : set.contains b.toNat = true) :
      Steps t (.byte set) (t.take 1)
  | anchor {a : Anchor} (holds : a.holds t.before t.after = true) :
      Steps t (.anchor a) (t.goto (t.pc + 1))
  | save {slot : Nat} : Steps t (.save slot)
      { t with pc := t.pc + 1, saves := (slot, t.offset) :: t.saves }
  | left {first second : Nat} : Steps t (.split first second) (t.goto first)
  | right {first second : Nat} : Steps t (.split first second) (t.goto second)
  | jump {target : Nat} : Steps t (.jump target) (t.goto target)

theorem Thread.mem_step_iff {t next : Thread} {i : Instruction} :
    next ∈ t.step i ↔ t.Steps i next := by
  constructor
  · intro mem
    cases i with
    | char set =>
      simp only [step] at mem
      split at mem
      · next front =>
        split at mem
        · next inside => exact List.mem_singleton.mp mem ▸ .char front inside
        · cases mem
      · cases mem
    | byte set =>
      simp only [step] at mem
      split at mem
      · next front =>
        split at mem
        · next inside => exact List.mem_singleton.mp mem ▸ .byte front inside
        · cases mem
      · cases mem
    | anchor a =>
      simp only [step] at mem
      split at mem
      · next holds => exact List.mem_singleton.mp mem ▸ .anchor holds
      · cases mem
    | save slot => exact List.mem_singleton.mp mem ▸ .save
    | split first second =>
      simp only [step, List.mem_cons, List.not_mem_nil, or_false] at mem
      obtain rfl | rfl := mem
      · exact .left
      · exact .right
    | jump target => exact List.mem_singleton.mp mem ▸ .jump
    | accept => cases mem
  · intro steps
    cases steps with
    | char front inside => simp [step, front, inside]
    | byte front inside => simp [step, front, inside]
    | anchor holds => simp [step, holds]
    | save | left | right | jump => simp [step]

/-- A thread stands in a text: what is in front and behind makes up the text,
the offset counts what is in front, and is `first` at least. -/
structure Thread.StandsIn (t : Thread) (text : List UInt8) (first : Nat) :
    Prop where
  splits : t.before.reverse ++ t.after = text
  counts : t.before.length = t.offset
  reaches : first ≤ t.offset

namespace Thread.StandsIn

variable {t : Thread} {text : List UInt8} {first : Nat}

theorem offset_le (stands : t.StandsIn text first) :
    t.offset ≤ text.length := by
  rw [← stands.splits, List.length_append, List.length_reverse, stands.counts]
  exact Nat.le_add_right _ _

theorem goto (stands : t.StandsIn text first) (pc : Nat) :
    (t.goto pc).StandsIn text first :=
  ⟨stands.splits, stands.counts, stands.reaches⟩

theorem save (stands : t.StandsIn text first) (pc : Nat)
    (saves : List (Nat × Nat)) :
    Thread.StandsIn { t with pc, saves } text first :=
  ⟨stands.splits, stands.counts, stands.reaches⟩

theorem take (stands : t.StandsIn text first) {n : Nat}
    (enough : n ≤ t.after.length) :
    (t.take n).StandsIn text first where
  splits := by
    rw [← stands.splits]
    simp [Thread.take]
  counts := by
    have := stands.counts
    simp only [Thread.take, List.length_append,
      List.length_reverse, List.length_take]
    omega
  reaches := Nat.le_trans stands.reaches (Nat.le_add_right _ _)

/-- Every instruction leaves the thread in the text: it takes only bytes that
are there. -/
theorem step (stands : t.StandsIn text first) {i : Instruction} {next : Thread}
    (mem : next ∈ t.step i) : next.StandsIn text first := by
  cases mem_step_iff.mp mem with
  | char front _ => exact stands.take (Text.length_le_of_charAtFront? front)
  | byte front _ =>
    exact stands.take (by rw [front]; exact Nat.succ_le_succ (Nat.zero_le _))
  | save => exact stands.save _ _
  | anchor | left | right | jump => exact stands.goto _

end Thread.StandsIn

/-- A run ends with a thread that stands where those on its stack do. -/
theorem standsIn_of_run {program : Array Instruction}
    {budget : Nat} {visited later : Visited}
    {stack : List Thread} {t : Thread} {text : List UInt8}
    {first : Nat} (stand : ∀ s ∈ stack, s.StandsIn text first)
    (ran : run program budget visited stack = (some t, later)) :
    t.StandsIn text first := by
  -- threads are only dropped from the stack or replaced by those of their next
  -- steps
  induction budget generalizing visited stack with
  | zero => cases ran
  | succ budget ih =>
    cases stack with
    | nil => cases ran
    | cons s stack =>
      have others : ∀ s' ∈ stack, s'.StandsIn text first :=
        fun s' mem => stand s' (.tail _ mem)
      simp only [run] at ran
      split at ran
      · exact ih others ran
      · split at ran
        · exact ih others ran
        · cases ran
          exact stand _ (.head _)
        · refine ih (fun s' mem => ?_) ran
          rcases List.mem_append.mp mem with mem | mem
          · exact (stand s (.head _)).step mem
          · exact others s' mem

/-- A run from one position ends there or behind it, and in the text. -/
theorem offset_of_run {program : Array Instruction} {budget : Nat}
    {visited later : Visited} {before after : List UInt8} {offset : Nat}
    {t : Thread} (counts : before.length = offset) (ran : run program budget
      visited [⟨0, before, after, offset, []⟩] = (some t, later)) :
    offset ≤ t.offset ∧ t.offset ≤ before.length + after.length := by
  have stands : t.StandsIn (before.reverse ++ after) offset := by
    refine standsIn_of_run (fun s mem => ?_) ran
    cases List.mem_singleton.mp mem
    exact ⟨rfl, counts, Nat.le_refl _⟩
  exact ⟨stands.reaches, by simpa using stands.offset_le⟩

namespace Compiled

/-- A search from a position on finds a match that starts there or behind it. -/
theorem bounds_of_searchFrom {c : Compiled}
    {budget : Nat} {visited : Visited} {before after : List UInt8}
    {offset : Nat} {m : Match} (counts : before.length = offset)
    (found : c.searchFrom budget visited before offset after = some m) :
    offset ≤ m.start ∧ m.start ≤ m.stop ∧
      m.stop ≤ before.length + after.length := by
  induction after generalizing visited before offset with
  | nil =>
    rw [searchFrom] at found
    split at found
    · next t later ran =>
      cases found
      exact ⟨Nat.le_refl _, offset_of_run counts ran⟩
    · cases found
  | cons b after ih =>
    rw [searchFrom] at found
    split at found
    · next t later ran =>
      cases found
      exact ⟨Nat.le_refl _, offset_of_run counts ran⟩
    · obtain ⟨reaches, ordered, inside⟩ := ih (by simp [counts]) found
      simp only [List.length_cons] at inside ⊢
      omega

/-- A match starts before it stops, and stops in the text. -/
theorem bounds_of_search? {c : Compiled} {text : List UInt8} {m : Match}
    (found : c.search? text = some m) :
    m.start ≤ m.stop ∧ m.stop ≤ text.length := by
  have bounds := (bounds_of_searchFrom rfl found).2
  simpa using bounds

end Compiled

end Pattern

end Lexigram
