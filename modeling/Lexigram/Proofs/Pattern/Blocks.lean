import Lexigram.Proofs.Pattern.Leftmost
import Lexigram.Proofs.Pattern.Embedding

/-!
Code inside a program. The code of an expression can stand at any address and
count its groups from any index on: addresses and slots are moved
(`Expr.relocates_code`). It runs there as its own program does, up to the
instruction behind it, where its own program has a match (`Runs.inside`).
-/

namespace Lexigram.Pattern

/-! ## Ways to put code together -/

/-- A relation between codes that all ways to put codes together keep. -/
structure Code.Compatible (R : Code → Code → Prop) : Prop where
  skip : R skip skip
  append : ∀ {c c' d d' : Code}, R c c' → R d d' → R (c.append d) (c'.append d')
  choose : ∀ {c c' d d' : Code}, R c c' → R d d' → R (c.choose d) (c'.choose d')
  optional : ∀ (greedy : Bool) {c c' : Code}, R c c' →
    R (optional greedy c) (optional greedy c')
  many : ∀ (greedy : Bool) {c c' : Code}, R c c' →
    R (many greedy c) (many greedy c')

namespace Code.Compatible

variable {R : Code → Code → Prop} {c c' : Code}

theorem times (h : Compatible R) (same : R c c') (n : Nat) :
    R (c.times n) (c'.times n) := by
  induction n with
  | zero => exact h.skip
  | succ n ih => exact h.append same ih

theorem upTo (h : Compatible R) (greedy : Bool) (same : R c c') (n : Nat) :
    R (upTo greedy c n) (upTo greedy c' n) := by
  induction n with
  | zero => exact h.skip
  | succ n ih => exact h.optional greedy (h.append same ih)

theorem repetition (h : Compatible R) (least : Nat) (most : Option Nat)
    (greedy : Bool) (same : R c c') :
    R (repetition least most greedy c) (repetition least most greedy c') := by
  cases most with
  | some most => exact h.append (h.times same least) (h.upTo greedy same _)
  | none =>
    cases least with
    | zero => exact h.optional greedy (h.many greedy same)
    | succ least => exact h.append (h.times same least) (h.many greedy same)

end Code.Compatible

/-! ## Code at another address -/

/-- The instruction at another address, its group counted from another index
on. -/
def Instruction.relocate (base groups : Nat) : Instruction → Instruction
  | save slot => save (slot + 2 * groups)
  | split first second => split (base + first) (base + second)
  | jump target => jump (base + target)
  | i => i

theorem Instruction.eq_accept_of_relocate {base groups : Nat} {i : Instruction}
    (h : i.relocate base groups = .accept) : i = .accept := by
  cases i <;> first | rfl | cases h

/-- The second code is the first at another address, its groups counted from
another index on. -/
def Code.Relocates (base groups : Nat) (c c' : Code) : Prop :=
  ∀ address, c' (base + address) = (c address).map
    (Instruction.relocate base groups)

namespace Code.Relocates

variable {base groups : Nat} {c c' d d' : Code}

theorem skip : Relocates base groups skip skip := fun _ => rfl

theorem single (i : Instruction) :
    Relocates base groups (single i) (single (i.relocate base groups)) :=
  fun _ => rfl

theorem append (h : Relocates base groups c c')
    (h' : Relocates base groups d d') :
    Relocates base groups (c.append d) (c'.append d') := by
  intro address
  simp only [Code.append, h address, List.map_append, List.length_map,
    Nat.add_assoc, h' (address + _)]

theorem choose (h : Relocates base groups c c')
    (h' : Relocates base groups d d') :
    Relocates base groups (c.choose d) (c'.choose d') := by
  intro address
  simp only [Code.choose]
  have first := h (address + 1)
  rw [← Nat.add_assoc] at first
  have second := h' (address + (c (address + 1)).length + 2)
  simp only [← Nat.add_assoc] at second
  simp only [first, List.length_map, second, List.map_cons, List.map_append,
    List.cons_append, Instruction.relocate, ← Nat.add_assoc]

theorem relocate_branch (greedy : Bool) (inside outside : Nat) :
    (branch greedy inside outside).relocate base groups
      = branch greedy (base + inside) (base + outside) := by
  cases greedy <;> rfl

theorem optional (greedy : Bool) (h : Relocates base groups c c') :
    Relocates base groups (optional greedy c) (optional greedy c') := by
  intro address
  have body := h (address + 1)
  rw [← Nat.add_assoc] at body
  simp only [Code.optional, body, List.length_map, List.map_cons,
    relocate_branch, ← Nat.add_assoc]

theorem many (greedy : Bool) (h : Relocates base groups c c') :
    Relocates base groups (many greedy c) (many greedy c') := by
  intro address
  simp only [Code.many, h address, List.length_map, List.map_append,
    List.map_cons, List.map_nil, relocate_branch, ← Nat.add_assoc]

theorem compatible (base groups : Nat) :
    Compatible (Relocates base groups) where
  skip := skip
  append := append
  choose := choose
  optional greedy := optional greedy
  many greedy := many greedy

end Code.Relocates

/-- The code of an expression at another address, with its groups raised. -/
theorem Expr.relocates_code (base groups : Nat) (e : Expr) :
    Code.Relocates base groups e.code (e.shift groups).code := by
  induction e with
  | empty => exact .skip
  | char set => exact .single (.char set)
  | byte set => exact .single (.byte set)
  | anchor a => exact .single (.anchor a)
  | sequence a b left right => exact left.append right
  | choice a b left right => exact left.choose right
  | repetition body least most greedy ih =>
    exact (Code.Relocates.compatible base groups).repetition least most
      greedy ih
  | group index body ih =>
    cases index with
    | none => exact ih
    | some n =>
      have save (slot : Nat) :
          Code.Relocates base groups (.single (.save slot))
            (.single (.save (slot + 2 * groups))) :=
        .single _
      change Code.Relocates base groups _ ((Code.single
        (.save (2 * (n + groups)))).append ((body.shift groups).code.append
        (.single (.save (2 * (n + groups) + 1)))))
      rw [show 2 * (n + groups) + 1 = 2 * n + 1 + 2 * groups by omega,
        Nat.mul_add]
      exact (save _).append (ih.append (save _))

/-! ## Where instructions go on -/

/-- An instruction is no match and goes on inside an interval of addresses, or
at the next one. -/
def Instruction.StaysIn (first last : Nat) : Instruction → Prop
  | split left right =>
    (first ≤ left ∧ left ≤ last) ∧ first ≤ right ∧ right ≤ last
  | jump target => first ≤ target ∧ target ≤ last
  | accept => False
  | _ => True

theorem Instruction.StaysIn.mono {first last first' last' : Nat}
    {i : Instruction} (h : i.StaysIn first last) (lower : first' ≤ first)
    (upper : last ≤ last') : i.StaysIn first' last' := by
  cases i with
  | split left right =>
    exact ⟨⟨lower.trans h.1.1, h.1.2.trans upper⟩, lower.trans h.2.1,
      h.2.2.trans upper⟩
  | jump target => exact ⟨lower.trans h.1, h.2.trans upper⟩
  | accept => exact h
  | _ => trivial

/-- Code that goes on inside itself or right behind. -/
def Code.Contained (c : Code) : Prop :=
  ∀ base, ∀ i ∈ c base, i.StaysIn base (base + (c base).length)

namespace Code.Contained

variable {c d : Code}

theorem skip : Contained skip := fun _ => List.forall_mem_nil _

theorem single {i : Instruction} (stays : ∀ first last, i.StaysIn first last) :
    Contained (single i) := by
  intro base j mem
  obtain rfl := List.mem_singleton.mp mem
  exact stays _ _

theorem append (h : Contained c) (h' : Contained d) :
    Contained (c.append d) := by
  intro base i mem
  simp only [Code.append, List.length_append] at mem ⊢
  rcases List.mem_append.mp mem with mem | mem
  · exact (h base i mem).mono (Nat.le_refl _) (by omega)
  · exact (h' _ i mem).mono (by omega) (by omega)

theorem choose (h : Contained c) (h' : Contained d) :
    Contained (c.choose d) := by
  intro base i mem
  simp only [Code.choose, List.length_append, List.length_cons,
    List.cons_append, List.mem_cons, List.mem_append] at mem ⊢
  rcases mem with rfl | mem | rfl | mem
  · exact ⟨⟨by omega, by omega⟩, by omega, by omega⟩
  · exact (h _ i mem).mono (by omega) (by omega)
  · exact ⟨by omega, by omega⟩
  · exact (h' _ i mem).mono (by omega) (by omega)

theorem staysIn_branch {greedy : Bool}
    {inside outside first last : Nat} (h : first ≤ inside ∧ inside ≤ last)
    (h' : first ≤ outside ∧ outside ≤ last) :
    (branch greedy inside outside).StaysIn first last := by
  cases greedy
  · exact ⟨h', h⟩
  · exact ⟨h, h'⟩

theorem optional (greedy : Bool) (h : Contained c) :
    Contained (optional greedy c) := by
  intro base i mem
  simp only [Code.optional, List.length_cons, List.mem_cons] at mem ⊢
  rcases mem with rfl | mem
  · exact staysIn_branch (by omega) (by omega)
  · exact (h _ i mem).mono (by omega) (by omega)

theorem many (greedy : Bool) (h : Contained c) : Contained (many greedy c) := by
  intro base i mem
  simp only [Code.many, List.length_append, List.length_singleton,
    List.mem_append, List.mem_singleton] at mem ⊢
  rcases mem with mem | rfl
  · exact (h _ i mem).mono (by omega) (by omega)
  · exact staysIn_branch (by omega) (by omega)

theorem compatible : Compatible fun c _ => Contained c where
  skip := skip
  append := append
  choose := choose
  optional greedy := optional greedy
  many greedy := many greedy

end Code.Contained

theorem Expr.contained_code (e : Expr) : Code.Contained e.code := by
  induction e with
  | empty => exact .skip
  | char | byte | anchor => exact .single fun _ _ => trivial
  | sequence a b left right => exact left.append right
  | choice a b left right => exact left.choose right
  | repetition body least most greedy ih =>
    exact @Code.Compatible.repetition _ _ body.code Code.Contained.compatible
      least most greedy ih
  | group index body ih =>
    cases index with
    | none => exact ih
    | some n =>
      exact .append (.single fun _ _ => trivial)
        (ih.append (.single fun _ _ => trivial))

/-! ## Code in a program -/

/-- The code stands in a program at an address. -/
def HasCode (program : Array Instruction) (base : Nat)
    (code : List Instruction) : Prop :=
  ∀ pc, pc < code.length → program[base + pc]? = code[pc]?

namespace HasCode

variable {program : Array Instruction} {base : Nat}
  {code code' : List Instruction} {i : Instruction}

theorem left (h : HasCode program base (code ++ code')) :
    HasCode program base code := by
  intro pc inside
  rw [h pc (by rw [List.length_append]; omega),
    List.getElem?_append_left inside]

theorem right (h : HasCode program base (code ++ code')) :
    HasCode program (base + code.length) code' := by
  intro pc inside
  rw [Nat.add_assoc, h _ (by rw [List.length_append]; omega),
    List.getElem?_append_right (by omega), Nat.add_sub_cancel_left]

theorem head (h : HasCode program base (i :: code)) : program[base]? = some i :=
  h 0 (Nat.zero_lt_succ _)

theorem tail (h : HasCode program base (i :: code)) :
    HasCode program (base + 1) code :=
  @HasCode.right program base [i] code h

end HasCode

/-! ## Runs inside a program -/

/-- The thread in a program that has its code at an address, its groups counted
from an index on, with what was saved before. -/
def Thread.lift (base groups : Nat) (saves : List (Nat × Nat)) (t : Thread) :
    Thread :=
  { t with
    pc := base + t.pc, saves := t.saves.map
      (fun (slot, offset) => (slot + 2 * groups, offset)) ++ saves }

theorem Thread.step_lift (base groups : Nat) (saves : List (Nat × Nat))
    (t : Thread) (i : Instruction) :
    (t.lift base groups saves).step (i.relocate base groups)
      = (t.step i).map (lift base groups saves) := by
  cases i with
  | char set =>
    simp only [step, Instruction.relocate, lift]
    split
    · split <;> rfl
    · rfl
  | byte set =>
    simp only [step, Instruction.relocate, lift]
    split
    · split <;> rfl
    · rfl
  | anchor a =>
    simp only [step, Instruction.relocate, lift]
    by_cases holds : a.holds t.before t.after = true
    · simp only [holds, if_true]
      rfl
    · simp only [holds]
      rfl
  | _ => rfl

/-- Where a thread goes on that stays between two addresses. -/
theorem Thread.pc_of_step {t t' : Thread} {i : Instruction} {first last : Nat}
    (stays : i.StaysIn first last) (lower : first ≤ t.pc) (upper : t.pc < last)
    (next : t' ∈ t.step i) : first ≤ t'.pc ∧ t'.pc ≤ last := by
  cases mem_step_iff.mp next with
  | char | byte | anchor | save => exact ⟨Nat.le_succ_of_le lower, upper⟩
  | left => exact stays.1
  | right => exact stays.2
  | jump => exact stays

namespace Expr

/-- The program of an expression, up to the match. -/
theorem program_inside (e : Expr) {pc : Nat} (inside : pc < (e.code 0).length) :
    e.program[pc]? = (e.code 0)[pc]? := by
  simp only [program, Code.append, List.getElem?_toArray]
  rw [List.getElem?_append_left inside]

theorem program_end (e : Expr) :
    e.program[(e.code 0).length]? = some .accept := by
  simp [program, Code.append, Code.single]

end Expr

/-- A run inside a program goes as that of the expression by itself, up to where
that has a match. The points outside the code are left as they are; if there is
no match the run goes on with what else is on the stack. -/
theorem Runs.inside {program : Array Instruction} {base groups : Nat}
    (saves : List (Nat × Nat)) {e : Expr} (code : HasCode program base
      ((e.code 0).map (Instruction.relocate base groups)))
    {seen seen' : Set Point} {stack : List Thread}
    {result : Option Thread} (h : Runs e.program seen stack result seen')
    (stay : ∀ s ∈ stack, s.pc ≤ (e.code 0).length)
    (seen_lt : ∀ x ∈ seen, x.1 < (e.code 0).length) (points : Set Point)
    (same : ∀ pc < (e.code 0).length, ∀ o, (base + pc, o) ∈ points ↔
      (pc, o) ∈ seen) (rest : List Thread) :
    ∃ points' rest', (∀ x : Point, x.1 < base ∨ base + (e.code 0).length ≤ x.1 →
      (x ∈ points' ↔ x ∈ points)) ∧
      (result = none → rest' = rest) ∧ ∀ r s, Runs program points'
      ((result.map (Thread.lift base groups saves)).toList ++ rest') r s →
        Runs program points (stack.map (Thread.lift base groups saves) ++ rest)
        r s := by
  induction h generalizing points with
  | done =>
    exact ⟨points, rest, fun _ _ => Iff.rfl, fun _ => rfl, fun _ _ h => h⟩
  | @again seen seen' t stack result old others ih =>
    obtain ⟨points', rest', outside, none, goes⟩ :=
      ih (fun s mem => stay s (.tail _ mem)) seen_lt points same
    have old' : (t.lift base groups saves).point ∈ points :=
      (same t.pc (seen_lt _ old) t.offset).mpr old
    exact ⟨points', rest', outside, none, fun r s h => .again old' (goes r s h)⟩
  | @out seen seen' t stack result fresh here others ih =>
    -- there is an instruction at every address of the code and the match behind
    -- it
    rcases Nat.lt_or_eq_of_le (stay t (.head _)) with inside | last
    · rw [e.program_inside inside, List.getElem?_eq_getElem inside] at here
      cases here
    · rw [last, e.program_end] at here
      cases here
  | @accept seen t stack fresh here =>
    -- the match of the expression alone is where its code in the program ends
    exact ⟨points, stack.map (Thread.lift base groups saves) ++ rest,
      fun _ _ => Iff.rfl, nofun, fun _ _ h => h⟩
  | @step seen seen' t stack result i fresh here goesOn others ih =>
    have inside : t.pc < (e.code 0).length := by
      refine Nat.lt_of_le_of_ne (stay t (.head _)) fun last => goesOn ?_
      rw [last, e.program_end] at here
      exact (Option.some.inj here).symm
    rw [e.program_inside inside] at here
    have here' : program[(t.lift base groups saves).pc]?
        = some (i.relocate base groups) := by
      have := code t.pc (by rwa [List.length_map])
      rwa [List.getElem?_map, here] at this
    have stays : i.StaysIn 0 (e.code 0).length := by
      simpa using e.contained_code 0 i (List.mem_of_getElem? here)
    have stay' : ∀ s ∈ t.step i ++ stack, s.pc ≤ (e.code 0).length :=
      List.forall_mem_append.mpr ⟨fun s next =>
        (Thread.pc_of_step stays (Nat.zero_le _) inside next).2,
        fun s mem => stay s (.tail _ mem)⟩
    have same' : ∀ pc < (e.code 0).length, ∀ o,
        (base + pc, o) ∈ insert (t.lift base groups saves).point points ↔
        (pc, o) ∈ insert t.point seen := by
      intro pc lt o
      simp [same pc lt o, Thread.point, Thread.lift]
    obtain ⟨points', rest', outside, none, goes⟩ :=
      ih stay' (Set.forall_mem_insert.mpr ⟨inside, seen_lt⟩) _ same'
    refine ⟨points', rest', fun x out => ?_, none, fun r s h => ?_⟩
    · rw [outside x out, Set.mem_insert_iff, or_iff_right]
      rintro rfl
      simp only [Thread.point, Thread.lift] at out
      omega
    · refine .step (fun old => fresh ((same t.pc inside t.offset).mp old))
        here' ?_ ?_
      · exact fun match_ => goesOn (Instruction.eq_accept_of_relocate match_)
      · have goes := goes r s h
        rw [List.map_append, List.append_assoc, ← Thread.step_lift] at goes
        exact goes

end Lexigram.Pattern
