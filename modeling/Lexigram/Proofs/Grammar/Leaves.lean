import Lexigram.Grammar.Token

/-!
What stands at the leaves of tokens: the patterns of the literals and the
targets of the references, in groups of any depth. Facts on sequences of tokens
are proved by `sequence_induction`, which has a case for each kind of token.
-/

namespace Lexigram

namespace Token

variable {ι κ : Type}

/-- The pattern of a literal. -/
def pattern? : Token ι → Option String
  | .literal p => some p
  | _ => none

/-- The patterns of all literals in a sequence, in the order they stand in. -/
def patterns (ts : List (Token ι)) : List String :=
  (postorderAll ts).filterMap pattern?

/-- Induction along a sequence and the members of its groups. -/
theorem sequence_induction {motive : List (Token ι) → Prop}
    (nil : motive []) (literal : ∀ p ts, motive ts → motive (.literal p :: ts))
    (reference : ∀ t ts, motive ts → motive (.reference t :: ts))
    (group : ∀ m members ts, motive members → motive ts →
      motive (.group m members :: ts)) :
    ∀ ts, motive ts
  | [] => nil
  | .literal p :: ts =>
    literal p ts (sequence_induction nil literal reference group ts)
  | .reference t :: ts =>
    reference t ts (sequence_induction nil literal reference group ts)
  | .group m members :: ts =>
    group m members ts (sequence_induction nil literal reference group members)
      (sequence_induction nil literal reference group ts)
termination_by ts => sizeOf ts

section Leaves

variable (p : String) (t : ι) (m : Multiplicity)
  (members ts us : List (Token ι))

@[simp] theorem patterns_nil : patterns ([] : List (Token ι)) = [] := rfl

@[simp] theorem patterns_literal :
    patterns (.literal p :: ts : List (Token ι)) = p :: patterns ts := by
  simp [patterns, postorder, pattern?]

@[simp] theorem patterns_reference :
    patterns (.reference t :: ts) = patterns ts := by
  have own : pattern? (.reference t) = none := rfl
  simp [patterns, postorder, own]

@[simp] theorem patterns_group :
    patterns (.group m members :: ts) = patterns members ++ patterns ts := by
  have own : pattern? (.group m members : Token ι) = none := rfl
  simp [patterns, postorder, own]

@[simp] theorem patterns_append :
    patterns (ts ++ us) = patterns ts ++ patterns us := by
  simp [patterns]

@[simp] theorem targets_nil : targets ([] : List (Token ι)) = [] := rfl

@[simp] theorem targets_literal :
    targets (.literal p :: ts : List (Token ι)) = targets ts := by
  have own : target? (.literal p : Token ι) = none := rfl
  simp [targets, postorder, own]

@[simp] theorem targets_reference :
    targets (.reference t :: ts) = t :: targets ts := by
  simp [targets, postorder, target?]

@[simp] theorem targets_group :
    targets (.group m members :: ts) = targets members ++ targets ts := by
  have own : target? (.group m members : Token ι) = none := rfl
  simp [targets, postorder, own]

@[simp] theorem targets_append :
    targets (ts ++ us) = targets ts ++ targets us := by
  simp [targets]

end Leaves

/-! ## Replacing references -/

theorem targets_mapAll (f : ι → κ) (ts : List (Token ι)) :
    targets (mapAll f ts) = (targets ts).map f := by
  induction ts using sequence_induction with
  | nil => rfl
  | literal p ts ih => simpa [map] using ih
  | reference t ts ih => simpa [map] using ih
  | group m members ts inside ih =>
    rw [mapAll_eq_map] at inside ih
    simp [map, inside, ih]

theorem patterns_mapAll (f : ι → κ) (ts : List (Token ι)) :
    patterns (mapAll f ts) = patterns ts := by
  induction ts using sequence_induction with
  | nil => rfl
  | literal p ts ih => simpa [map] using ih
  | reference t ts ih => simpa [map] using ih
  | group m members ts inside ih =>
    rw [mapAll_eq_map] at inside ih
    simp [map, inside, ih]

/-- Only what is done to the targets counts. -/
theorem mapAll_congr {f g : ι → κ} {ts : List (Token ι)}
    (h : ∀ t ∈ targets ts, f t = g t) :
    mapAll f ts = mapAll g ts := by
  induction ts using sequence_induction with
  | nil => rfl
  | literal p ts ih =>
    rw [targets_literal] at h
    rw [mapAll, mapAll, map, map, ih h]
  | reference t ts ih =>
    rw [targets_reference, List.forall_mem_cons] at h
    rw [mapAll, mapAll, map, map, h.1, ih h.2]
  | group m members ts inside ih =>
    rw [targets_group, List.forall_mem_append] at h
    rw [mapAll, mapAll, map, map, inside h.1, ih h.2]

theorem mapAll_mapAll {ρ : Type} (f : κ → ρ) (g : ι → κ) (ts : List (Token ι)) :
    mapAll f (mapAll g ts) = mapAll (f ∘ g) ts := by
  induction ts using sequence_induction with
  | nil => rfl
  | literal p ts ih => rw [mapAll, mapAll, map, map, mapAll, map, ih]
  | reference t ts ih =>
    rw [mapAll, mapAll, map, map, mapAll, map, ih]
    rfl
  | group m members ts inside ih =>
    rw [mapAll, mapAll, map, map, mapAll, map, inside, ih]

theorem mapAll_id (ts : List (Token ι)) : mapAll id ts = ts := by
  induction ts using sequence_induction with
  | nil => rfl
  | literal p ts ih => rw [mapAll, map, ih]
  | reference t ts ih =>
    rw [mapAll, map, ih]
    rfl
  | group m members ts inside ih => rw [mapAll, map, inside, ih]

/-- References that are replaced and put back stay as they were. -/
theorem mapAll_mapAll_of_inverse {f : κ → ι} {g : ι → κ} {ts : List (Token ι)}
    (h : ∀ t ∈ targets ts, f (g t) = t) : mapAll f (mapAll g ts) = ts := by
  rw [mapAll_mapAll,
    mapAll_congr (show ∀ t ∈ targets ts, (f ∘ g) t = id t from h), mapAll_id]

end Token

end Lexigram
