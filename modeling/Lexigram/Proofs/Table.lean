import Mathlib.Data.List.Nodup
import Mathlib.Data.String.Basic
import Lexigram.Table

/-!
Tables by their entries: what is found under a key, what comes of putting an
entry in or taking one out, and tables whose keys are in order.
-/

namespace Lexigram

namespace Table

variable {κ α : Type}

@[simp] theorem length_keys (t : Table κ α) : (keys t).length = t.length :=
  List.length_map _

section Entries

variable [DecidableEq κ] {t : Table κ α} {k : κ} {v : α}

theorem mem_of_find? (h : t.find? k = some v) : (k, v) ∈ t := by
  induction t with
  | nil => cases h
  | cons entry t ih =>
    rw [find?] at h
    split at h
    · next same =>
      obtain rfl := Option.some.inj h
      exact same ▸ List.mem_cons_self
    · exact List.mem_cons_of_mem _ (ih h)

theorem find?_of_mem (distinct : (keys t).Nodup) (h : (k, v) ∈ t) :
    t.find? k = some v := by
  induction t with
  | nil => cases h
  | cons entry t ih =>
    rw [keys, List.map_cons, List.nodup_cons] at distinct
    rw [find?]
    rcases List.mem_cons.mp h with rfl | later
    · exact if_pos rfl
    · have differ : entry.1 ≠ k := by
        rintro rfl
        exact distinct.1 (List.mem_map.mpr ⟨_, later, rfl⟩)
      rw [if_neg differ]
      exact ih distinct.2 later

theorem mem_insert [LT κ] [DecidableLT κ] {entry : κ × α}
    (h : entry ∈ t.insert k v) :
    entry = (k, v) ∨ entry ∈ t := by
  induction t with
  | nil => exact .inl (List.mem_singleton.mp h)
  | cons first t ih =>
    rw [insert] at h
    split at h
    · exact (List.mem_cons.mp h).imp_right (List.mem_cons_of_mem _)
    · split at h
      · exact List.mem_cons.mp h
      · rcases List.mem_cons.mp h with rfl | later
        · exact .inr List.mem_cons_self
        · exact (ih later).imp_right (List.mem_cons_of_mem _)

theorem exists_find?_of_mem_keys (h : k ∈ keys t) :
    ∃ v, t.find? k = some v := by
  induction t with
  | nil => cases h
  | cons entry t ih =>
    rw [find?]
    split
    · exact ⟨_, rfl⟩
    · next other => exact ih ((List.mem_cons.mp h).resolve_left (Ne.symm other))

theorem find?_eq_none (h : k ∉ keys t) : t.find? k = none := by
  cases found : t.find? k with
  | none => rfl
  | some v => exact absurd (List.mem_map.mpr ⟨_, mem_of_find? found, rfl⟩) h

end Entries

/-! ## Order -/

/-- Whether the keys ascend. -/
def Ordered [LT κ] (t : Table κ α) : Prop :=
  (keys t).Pairwise (· < ·)

theorem Ordered.nodup [LT κ] [IsStrictTotalOrder κ (fun a b => a < b)]
    {t : Table κ α} (h : t.Ordered) :
    (keys t).Nodup :=
  List.Pairwise.imp (fun {_ _} lt => ne_of_irrefl
    (r := fun a b : κ => a < b) lt) h

section Insert

variable [DecidableEq κ] [LT κ] [DecidableLT κ] {t : Table κ α} {k : κ} {v : α}

theorem mem_insert_self (t : Table κ α) (k : κ) (v : α) :
    (k, v) ∈ t.insert k v :=
  mem_of_find? (find?_insert_self t k v)

theorem mem_insert_of_mem {entry : κ × α} (h : entry ∈ t)
    (differ : entry.1 ≠ k) : entry ∈ t.insert k v := by
  induction t with
  | nil => cases h
  | cons first t ih =>
    rw [insert]
    split
    · next same =>
      rcases List.mem_cons.mp h with rfl | later
      · exact absurd same differ
      · exact List.mem_cons_of_mem _ later
    · split
      · exact List.mem_cons_of_mem _ h
      · rcases List.mem_cons.mp h with rfl | later
        · exact List.mem_cons_self
        · exact List.mem_cons_of_mem _ (ih later)

theorem mem_keys_insert {key : κ} :
    key ∈ keys (t.insert k v) ↔ key = k ∨ key ∈ keys t := by
  constructor
  · intro h
    obtain ⟨entry, mem, rfl⟩ := List.mem_map.mp h
    rcases mem_insert mem with rfl | mem
    · exact .inl rfl
    · exact .inr (List.mem_map_of_mem mem)
  · rintro (rfl | h)
    · exact List.mem_map.mpr ⟨_, mem_insert_self t key v, rfl⟩
    · obtain ⟨entry, mem, rfl⟩ := List.mem_map.mp h
      by_cases same : entry.1 = k
      · exact List.mem_map.mpr ⟨_, mem_insert_self t k v, same.symm⟩
      · exact List.mem_map_of_mem (mem_insert_of_mem mem same)

variable [IsStrictTotalOrder κ (fun a b => a < b)]

theorem Ordered.insert (h : t.Ordered) (k : κ) (v : α) :
    (Table.insert t k v).Ordered := by
  induction t with
  | nil => exact List.pairwise_singleton _ _
  | cons first t ih =>
    have own : ∀ key ∈ keys t, first.1 < key := (List.pairwise_cons.mp h).1
    have rest : Table.Ordered t := (List.pairwise_cons.mp h).2
    rw [Table.insert]
    split
    · next same =>
        exact List.pairwise_cons.mpr ⟨fun key mem => same ▸ own key mem, rest⟩
    · next differ =>
      split
      · next before =>
        refine List.pairwise_cons.mpr ⟨fun key mem => ?_, h⟩
        rcases List.mem_cons.mp mem with rfl | later
        · exact before
        · exact trans_of (fun a b : κ => a < b) before (own key later)
      · next notBefore =>
        refine List.pairwise_cons.mpr ⟨fun key mem => ?_, ih rest⟩
        rcases mem_keys_insert.mp mem with rfl | later
        · rcases trichotomous_of (fun a b : κ => a < b) first.1 key with lt
            | same | lt
          · exact lt
          · exact absurd same differ
          · exact absurd lt notBefore
        · exact own key later

/-- A key above all others is put at the end. -/
theorem insert_of_forall_lt (above : ∀ key ∈ keys t, key < k) (v : α) :
    t.insert k v = t ++ [(k, v)] := by
  induction t with
  | nil => rfl
  | cons first t ih =>
    have lt : first.1 < k := above first.1 List.mem_cons_self
    rw [Table.insert, if_neg, if_neg,
      ih fun key mem => above key (List.mem_cons_of_mem _ mem)]
    · rfl
    · exact fun gt => asymm_of (fun a b : κ => a < b) lt gt
    · rintro same
      exact irrefl_of (fun a b : κ => a < b) k (same ▸ lt)

/-- Entries in order are put in as they are. -/
theorem insertAll_of_ordered {entries : Table κ α}
    (h : Table.Ordered (t ++ entries)) :
    t.insertAll entries = t ++ entries := by
  induction entries generalizing t with
  | nil => exact (List.append_nil t).symm
  | cons entry entries ih =>
    have above : ∀ key ∈ keys t, key < entry.1 := by
      intro key mem
      rw [Ordered, keys, List.map_append, List.pairwise_append] at h
      exact h.2.2 key mem entry.1 List.mem_cons_self
    have eq : t ++ entry :: entries
      = (t ++ [(entry.1, entry.2)]) ++ entries := by simp
    rw [eq] at h ⊢
    rw [insertAll, List.foldl_cons, insert_of_forall_lt above]
    exact ih h

theorem Ordered.insertAll {entries : List (κ × α)} (h : t.Ordered) :
    (t.insertAll entries).Ordered := by
  induction entries generalizing t with
  | nil => exact h
  | cons entry entries ih => exact ih (h.insert entry.1 entry.2)

end Insert

/-- The entries of a table in order are what is found in it. -/
theorem mem_iff_find? [DecidableEq κ]
    [LT κ] [IsStrictTotalOrder κ (fun a b => a < b)] {t : Table κ α}
    (ordered : t.Ordered) {k : κ} {v : α} : (k, v) ∈ t ↔ t.find? k = some v :=
  ⟨find?_of_mem ordered.nodup, mem_of_find?⟩

/-- Tables in order are known by what is found in them. -/
theorem ext_of_ordered [DecidableEq κ]
    [LT κ] [IsStrictTotalOrder κ (fun a b => a < b)]
    {t u : Table κ α} (ordered : t.Ordered) (ordered' : u.Ordered)
    (same : ∀ k, t.find? k = u.find? k) : t = u := by
  have distinct {t : Table κ α} (ordered : t.Ordered) : t.Nodup :=
    List.Nodup.of_map Prod.fst ordered.nodup
  refine List.Perm.eq_of_pairwise (fun a b _ _ lt gt => ?_)
    (List.pairwise_map.mp ordered) (List.pairwise_map.mp ordered')
    ((List.perm_ext_iff_of_nodup (distinct ordered) (distinct ordered')).mpr
      fun entry => ?_)
  · exact absurd gt (asymm_of (fun a b : κ => a < b) lt)
  · rw [mem_iff_find? ordered, mem_iff_find? ordered', same]

section InsertAll

variable [DecidableEq κ] [LT κ] [DecidableLT κ] {t : Table κ α}
  {entries : List (κ × α)}

theorem mem_insertAll {entry : κ × α} (h : entry ∈ t.insertAll entries) :
    entry ∈ t ∨ entry ∈ entries := by
  induction entries generalizing t with
  | nil => exact .inl h
  | cons first entries ih =>
    rcases ih h with inserted | later
    · rcases mem_insert inserted with rfl | old
      · exact .inr List.mem_cons_self
      · exact .inl old
    · exact .inr (List.mem_cons_of_mem _ later)

/-- Of the entries that are put in, the last under a key is found. -/
theorem find?_insertAll (t : Table κ α) (entries : List (κ × α)) (k : κ) :
    (t.insertAll entries).find? k =
      ((entries.filter (·.1 = k)).map (·.2)).getLast?.or (t.find? k) := by
  induction entries generalizing t with
  | nil => rfl
  | cons entry entries ih =>
    rw [insertAll, List.foldl_cons, ← insertAll, ih, find?_insert]
    by_cases same : entry.1 = k
    · rw [List.filter_cons_of_pos (by simpa using same), List.map_cons,
        List.getLast?_cons, if_pos same.symm]
      cases ((entries.filter (·.1 = k)).map (·.2)).getLast? <;> rfl
    · rw [List.filter_cons_of_neg (by simpa using same), if_neg (Ne.symm same)]

theorem mem_insertAll_of_not_mem {entry : κ × α} (h : entry ∈ t)
    (absent : entry.1 ∉ keys entries) :
    entry ∈ t.insertAll entries := by
  induction entries generalizing t with
  | nil => exact h
  | cons first entries ih =>
    rw [keys, List.map_cons, List.mem_cons, not_or] at absent
    exact ih (mem_insert_of_mem h absent.1) absent.2

theorem mem_keys_insertAll {key : κ} :
    key ∈ keys (t.insertAll entries) ↔ key ∈ keys t ∨ key ∈ keys entries := by
  induction entries generalizing t with
  | nil => exact (or_iff_left List.not_mem_nil).symm
  | cons entry entries ih =>
    have all : keys (entry :: entries) = entry.1 :: keys entries := rfl
    rw [insertAll, List.foldl_cons, ← insertAll, ih, mem_keys_insert, all,
      List.mem_cons, or_assoc, or_left_comm]

/-- An entry with a new key is put in between the others. -/
theorem keys_insert_perm {k : κ} (fresh : k ∉ keys t) (v : α) :
    (keys (t.insert k v)).Perm (k :: keys t) := by
  induction t with
  | nil => exact .refl _
  | cons first t ih =>
    rw [keys, List.map_cons, List.mem_cons, not_or] at fresh
    rw [insert, if_neg (Ne.symm fresh.1)]
    split
    · exact .refl _
    · exact ((ih fresh.2).cons first.1).trans (.swap _ _ _)

/-- Entries with new keys are put in between the others, one for each key. -/
theorem keys_insertAll_perm (nodup : (keys entries).Nodup)
    (fresh : ∀ k ∈ keys entries, k ∉ keys t) :
    (keys (t.insertAll entries)).Perm (keys t ++ keys entries) := by
  induction entries generalizing t with
  | nil => exact .of_eq (List.append_nil _).symm
  | cons entry entries ih =>
    obtain ⟨own, distinct⟩ := List.nodup_cons.mp nodup
    have new : entry.1 ∉ keys t := fresh entry.1 List.mem_cons_self
    have later : ∀ k ∈ keys entries, k ∉ keys (t.insert entry.1 entry.2) := by
      intro k mem there
      rcases mem_keys_insert.mp there with rfl | there
      · exact own mem
      · exact fresh k (List.mem_cons_of_mem _ mem) there
    have inserted := (keys_insert_perm new entry.2).append_right (keys entries)
    exact ((ih distinct later).trans inserted).trans List.perm_middle.symm

/-- Putting entries in adds one for each key, but for the keys that are
there. -/
theorem length_insertAll [IsStrictTotalOrder κ (fun a b => a < b)]
    (ordered : t.Ordered) (nodup : (keys entries).Nodup) :
    (t.insertAll entries).length + ((keys t).filter (· ∈ keys entries)).length
      = t.length + entries.length := by
  let others := (keys t).filter (fun k => !decide (k ∈ keys entries))
  have apart : ∀ k ∈ others, ∀ j ∈ keys entries, k ≠ j := by
    rintro k old j new rfl
    have absent := (List.mem_filter.mp old).2
    simp [new] at absent
  have same : (keys (t.insertAll entries)).Perm (others ++ keys entries) := by
    have distinct :=
      List.nodup_append.mpr ⟨ordered.nodup.filter _, nodup, apart⟩
    refine (List.perm_ext_iff_of_nodup ordered.insertAll.nodup distinct).mpr ?_
    intro k
    rw [mem_keys_insertAll, List.mem_append, List.mem_filter,
      Bool.not_eq_true', decide_eq_false_iff_not]
    tauto
  have counted : (t.insertAll entries).length
      = others.length + entries.length := by
    simpa using same.length_eq
  have split : t.length = ((keys t).filter (· ∈ keys entries)).length
      + others.length := by
    rw [← length_keys, List.length_eq_length_filter_add (· ∈ keys entries)]
  omega

end InsertAll

/-! ## Taking out -/

section Erase

variable [DecidableEq κ] {t : Table κ α}

theorem erase_sublist (t : Table κ α) (k : κ) : (t.erase k).Sublist t := by
  induction t with
  | nil => exact .refl _
  | cons first t ih =>
    rw [erase]
    split
    · exact List.sublist_cons_self _ _
    · exact ih.cons_cons _

theorem find?_erase (nodup : (keys t).Nodup) (k j : κ) :
    (t.erase k).find? j = if j = k then none else t.find? j := by
  induction t with
  | nil => rw [erase, find?, ite_self]
  | cons first t ih =>
    obtain ⟨own, distinct⟩ := List.nodup_cons.mp nodup
    rw [erase, find?]
    by_cases here : first.1 = k
    · rw [if_pos here]
      by_cases same : j = k
      · rw [if_pos same, same, ← here, find?_eq_none own]
      · rw [if_neg same, if_neg fun found => same (found.symm.trans here)]
    · rw [if_neg here, find?, ih distinct]
      by_cases same : j = k
      · rw [if_neg fun found => here (found.trans same), if_pos same,
          if_pos same]
      · rw [if_neg same, if_neg same]

theorem Ordered.erase [LT κ] (h : t.Ordered) (k : κ) :
    (Table.erase t k).Ordered :=
  List.Pairwise.sublist ((erase_sublist t k).map _) h

end Erase

end Table

end Lexigram
