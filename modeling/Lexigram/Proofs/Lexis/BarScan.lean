import Lexigram.Lexis.Fragment
import Lexigram.Proofs.Pattern.Extents

/-!
The scan for bars outside all groups and classes as a machine that goes on by a
character at a time and stops at a bar to report (`hasOuterBar_eq`). It stays
where it is over texts without marks, over escapes and over the names of groups,
but for the brackets in these (`run_plain`, `run_escape`, `exists_run_name`),
and is outside all classes behind the bracket that ends one (`run_closed`).
-/

namespace Lexigram

open Pattern (marks IsPlain Paired IsEscape IsClosed)

/-- What a scan for bars knows of the text in front. -/
structure BarScan where
  /-- How many groups are open. -/
  depth : Nat
  inClass : Bool
  /-- Whether a backslash is the last character. -/
  escaped : Bool
  deriving Repr, DecidableEq

namespace BarScan

/-- A scan outside all classes. -/
def outside (depth : Nat) : BarScan :=
  ⟨depth, false, false⟩

/-- What becomes of a scan behind a character, if that is no bar to report. -/
def step (s : BarScan) (c : Char) : Option BarScan :=
  if s.escaped then some { s with escaped := false }
  else if c = '\\' then some { s with escaped := true }
  else if s.inClass then some { s with inClass := c != ']' }
  else if c = '[' then some { s with inClass := true }
  else if c = '(' then some { s with depth := s.depth + 1 }
  else if c = ')' then some { s with depth := s.depth - 1 }
  else if c = '|' ∧ s.depth = 0 then none
  else some s

/-- What becomes of a scan behind a text without a bar to report. -/
def run (s : BarScan) (text : List Char) : Option BarScan :=
  text.foldlM step s

@[simp] theorem run_nil (s : BarScan) : s.run [] = some s := rfl

@[simp] theorem run_cons (s : BarScan) (c : Char) (cs : List Char) :
    s.run (c :: cs) = (s.step c).bind fun s' => s'.run cs := rfl

theorem run_append (s : BarScan) (cs ds : List Char) :
    s.run (cs ++ ds) = (s.run cs).bind fun s' => s'.run ds :=
  List.foldlM_append

/-- A bar is found where the run stops. -/
theorem hasOuterBarFrom_eq (depth : Nat) (inClass : Bool) (cs : List Char) :
    hasOuterBarFrom depth inClass cs
      = (run ⟨depth, inClass, false⟩ cs).isNone := by
  have other {c : Char} {cs : List Char} (one : c = '\\' → cs = [] → False)
      (more : ∀ d ds, c = '\\' → cs = d :: ds → False) : c ≠ '\\' := by
    rintro rfl
    cases cs with
    | nil => exact one rfl rfl
    | cons d ds => exact more d ds rfl rfl
  fun_induction hasOuterBarFrom with
  | case1 => rfl
  | case2 => simp [step]
  | case3 depth inClass c cs ih => simpa [step] using ih
  | case4 depth c cs one more ih => simpa [step, other one more] using ih
  | case5 depth inClass cs outside one more ih => simpa [step, outside] using ih
  | case6 depth inClass cs outside one more other ih =>
    simpa [step, outside] using ih
  | case7 depth inClass cs outside one more other other' ih =>
    simpa [step, outside] using ih
  | case8 depth inClass c cs one more outside bracket opening closing bar =>
    simp [step, outside, bar]
  | case9 depth inClass c cs one more outside bracket opening closing bar ih =>
    simpa [step, other one more, outside, bracket, opening, closing, bar]
      using ih

theorem hasOuterBar_eq (pattern : List Char) :
    hasOuterBar pattern = ((outside 0).run pattern).isNone :=
  hasOuterBarFrom_eq 0 false pattern

/-! ## Texts of a kind -/

variable {s s' : BarScan}

theorem step_of_plain {c : Char} (plain : c ∉ marks)
    (ready : s.escaped = false) : s.step c = some s := by
  obtain ⟨depth, inClass, escaped⟩ := s
  obtain rfl : escaped = false := ready
  simp only [marks, List.mem_cons, List.not_mem_nil, or_false, not_or] at plain
  cases inClass <;> simp [step, plain]

theorem run_plain {text : List Char} (plain : IsPlain text)
    (ready : s.escaped = false) : s.run text = some s := by
  induction text with
  | nil => rfl
  | cons c cs ih =>
    obtain ⟨here, others⟩ := List.forall_mem_cons.mp plain
    rw [run_cons, step_of_plain here ready]
    exact ih others

theorem run_escape {text : List Char} (escape : IsEscape text) (depth : Nat) :
    (outside depth).run ('\\' :: text) = some (outside depth) := by
  obtain ⟨c, others, rfl, plain⟩ := escape
  have behind := run_plain (s := outside depth) plain rfl
  simpa [step, outside] using behind

/-- A character that is no backslash leaves none in front of the next one. -/
theorem escaped_of_step {c : Char} (plain : c ≠ '\\')
    (ready : s.escaped = false) (stepped : s.step c = some s') :
    s'.escaped = false := by
  simp only [step, ready, plain, Bool.false_eq_true, if_false] at stepped
  repeat' split at stepped
  all_goals cases stepped <;> first | rfl | exact ready

theorem escaped_of_run_paired {text : List Char} (paired : Paired text)
    (ready : s.escaped = false) (ran : s.run text = some s') :
    s'.escaped = false := by
  induction paired generalizing s with
  | nil => exact Option.some.inj ran ▸ ready
  | escape c _ ih =>
    obtain ⟨depth, inClass, escaped⟩ := s
    obtain rfl : escaped = false := ready
    exact ih (s := ⟨depth, inClass, false⟩) rfl (by simpa [step] using ran)
  | other plain _ ih =>
    obtain ⟨s₁, stepped, ran⟩ := Option.bind_eq_some_iff.mp ran
    exact ih (escaped_of_step plain ready stepped) ran

theorem run_closed {text : List Char} (closed : IsClosed text)
    (ready : s.escaped = false) (ran : s.run text = some s') :
    ∃ depth, s' = outside depth := by
  obtain ⟨inside, rfl, paired⟩ := closed
  rw [run_append] at ran
  obtain ⟨s₁, front, bracket⟩ := Option.bind_eq_some_iff.mp ran
  have ready₁ := escaped_of_run_paired paired ready front
  obtain ⟨depth, inClass, escaped⟩ := s₁
  obtain rfl : escaped = false := ready₁
  refine ⟨depth, ?_⟩
  cases inClass <;> simpa [step, outside] using bracket.symm

theorem depth_le_of_step {c : Char} (other : c ≠ '(')
    (stepped : s.step c = some s') : s'.depth ≤ s.depth := by
  simp only [step, other, if_false] at stepped
  repeat' split at stepped
  all_goals cases stepped <;> first | exact Nat.le_refl _ | exact Nat.sub_le _ _

/-- Nothing but an opening parenthesis opens groups. -/
theorem depth_le_of_run {text : List Char} (none : '(' ∉ text)
    (ran : s.run text = some s') :
    s'.depth ≤ s.depth := by
  induction text generalizing s with
  | nil => exact Option.some.inj ran ▸ Nat.le_refl _
  | cons c cs ih =>
    obtain ⟨s₁, stepped, ran⟩ := Option.bind_eq_some_iff.mp ran
    obtain ⟨other, others⟩ := not_or.mp (mt List.mem_cons.mpr none)
    exact (ih others ran).trans (depth_le_of_step (Ne.symm other) stepped)

/-- In the name of a group only brackets matter. -/
theorem step_name {c : Char} (none : c ∉ ['\\', '(', ')', '|', '>'])
    (depth : Nat) (inClass : Bool) :
    step ⟨depth, inClass, false⟩ c
      = some ⟨depth, if inClass then c != ']' else c == '[', false⟩ := by
  simp only [List.mem_cons, List.not_mem_nil, or_false, not_or] at none
  cases inClass with
  | true => simp [step, none]
  | false => by_cases opening : c = '[' <;> simp [step, none, opening]

/-- Whether a name of a group leaves a scan in a class does not depend on the
groups around. -/
theorem exists_run_name {name : List Char}
    (none : ∀ c ∈ name, c ∉ ['\\', '(', ')', '|', '>']) (inClass : Bool) :
    ∃ inClass', ∀ depth, run ⟨depth, inClass, false⟩ name
      = some ⟨depth, inClass', false⟩ := by
  induction name generalizing inClass with
  | nil => exact ⟨inClass, fun _ => rfl⟩
  | cons c cs ih =>
    obtain ⟨here, others⟩ := List.forall_mem_cons.mp none
    obtain ⟨inClass', behind⟩ :=
      ih others (if inClass then c != ']' else c == '[')
    exact ⟨inClass', fun depth => by
      rw [run_cons, step_name here]; exact behind depth⟩

end BarScan

end Lexigram
