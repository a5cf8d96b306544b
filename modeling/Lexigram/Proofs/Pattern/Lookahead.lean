import Mathlib.Data.List.Forall2
import Lexigram.Pattern.Reader

/-!
How far the readers of patterns look ahead. A reader takes an element off the
front of a text. Put more text behind the one it has read: a reader that ends
with a closing character reads the same (`ReadsClosed`); one that looks for what
might follow does if something is left, or if what is put behind cannot be
mistaken for a part of the element (`ReadsAhead`); one that takes as much as it
can does if something is left (`ReadsWithin`). Where comments count as blanks
the text may end in one that goes on.
-/

namespace Lexigram.Pattern

open Text

/-- Takes an element off the front of a text. -/
abbrev ElementReader (α : Type) :=
  List Char → Except PatternFault (α × List Char)

section Steps

variable {ε α β : Type}

theorem bind_ok_iff {x : Except ε α} {f : α → Except ε β} {b : β} :
    (x >>= f) = .ok b ↔ ∃ a, x = .ok a ∧ f a = .ok b := by
  cases x with
  | error e =>
    constructor
    · intro h; cases h
    · rintro ⟨_, ⟨⟩, _⟩
  | ok a =>
    constructor
    · intro h; exact ⟨a, rfl, h⟩
    · rintro ⟨_, ⟨⟩, h⟩; exact h

theorem mapM_ok_iff {f : α → Except ε β} {xs : List α} {ys : List β} :
    xs.mapM f = .ok ys ↔ List.Forall₂ (fun x y => f x = .ok y) xs ys := by
  induction xs generalizing ys with
  | nil =>
    rw [List.mapM_nil, List.forall₂_nil_left_iff]
    exact ⟨fun h => (Except.ok.inj h).symm, fun h => h ▸ rfl⟩
  | cons x xs ih =>
    simp only [List.mapM_cons, bind_ok_iff, ih, List.forall₂_cons_left_iff]
    constructor
    · rintro ⟨y, first, ys', others, same⟩
      exact ⟨y, ys', first, others, (Except.ok.inj same).symm⟩
    · rintro ⟨y, ys', first, others, rfl⟩
      exact ⟨y, first, ys', others, rfl⟩

end Steps

/-- What may stand behind an element without being taken for a part of it. -/
def Flags.Stops (f : Flags) : List Char → Prop
  | [] => True
  | c :: _ =>
    c ≠ '?' ∧ c ≠ '\x7b' ∧ (f.verbose = true → isBlank c = false ∧ c ≠ '#')

section Kinds

variable {α β : Type}

/-- What stands behind the element does not matter. -/
def ReadsClosed (read : ElementReader α) : Prop :=
  ∀ ⦃cs x rest⦄, read cs = .ok (x, rest) → rest <:+ cs ∧ ∀ ds,
    read (cs ++ ds) = .ok (x, rest ++ ds)

/-- What stands behind the element does not matter if something is left. -/
def ReadsWithin (read : ElementReader α) : Prop :=
  ∀ ⦃cs x rest⦄, read cs = .ok (x, rest) →
    rest <:+ cs ∧ (rest ≠ [] → ∀ ds, read (cs ++ ds) = .ok (x, rest ++ ds))

/-- What stands behind the element does not matter if something is left, or if
it cannot be a part of the element; but a comment at the end goes on to the end
of its line. -/
def ReadsAhead (f : Flags) (read : ElementReader α) : Prop :=
  ∀ ⦃cs x rest⦄, read cs = .ok (x, rest) → rest <:+ cs ∧
    ((∀ ds, rest ≠ [] ∨ f.Stops ds → read (cs ++ ds) = .ok (x, rest ++ ds)) ∨
      f.verbose = true ∧ rest = [] ∧ ∀ ds, f.Stops ds → '\n' ∉ ds →
        read (cs ++ ds) = .ok (x, []))

variable {f : Flags} {read : ElementReader α} {next : α → ElementReader β}

theorem ReadsClosed.ahead (h : ReadsClosed read) :
    ReadsAhead f read := fun _ _ _ ok =>
  ⟨(h ok).1, .inl fun ds _ => (h ok).2 ds⟩

theorem ReadsAhead.within (h : ReadsAhead f read) :
    ReadsWithin read := fun _ _ _ ok =>
  ⟨(h ok).1, fun left ds => (h ok).2.elim (fun same => same ds (.inl left))
    fun ended => absurd ended.2.1 left⟩

theorem ReadsClosed.within (h : ReadsClosed read) :
    ReadsWithin read := fun _ _ _ ok =>
  ⟨(h ok).1, fun _ ds => (h ok).2 ds⟩

/-- Nothing is read. -/
theorem ReadsClosed.pure (x : α) : ReadsClosed fun cs => .ok (x, cs) := by
  rintro cs _ _ ⟨⟩
  exact ⟨List.suffix_rfl, fun _ => rfl⟩

theorem ReadsClosed.error (e : PatternFault) :
    ReadsClosed fun _ => (.error e : Except _ (α × _)) :=
  nofun

/-! ### One reader after the other -/

theorem ReadsClosed.bind (first : ReadsClosed read)
    (second : ∀ x, ReadsClosed (next x)) :
    ReadsClosed fun cs => read cs >>= fun y => next y.1 y.2 := by
  intro cs z rest ok
  obtain ⟨⟨x, middle⟩, here, there⟩ := bind_ok_iff.mp ok
  obtain ⟨suffix₁, same₁⟩ := first here
  obtain ⟨suffix₂, same₂⟩ := second x there
  exact ⟨suffix₂.trans suffix₁, fun ds => bind_ok_iff.mpr
    ⟨_, same₁ ds, same₂ ds⟩⟩

theorem ReadsWithin.bind (first : ReadsWithin read)
    (second : ∀ x, ReadsWithin (next x)) :
    ReadsWithin fun cs => read cs >>= fun y => next y.1 y.2 := by
  intro cs z rest ok
  obtain ⟨⟨x, middle⟩, here, there⟩ := bind_ok_iff.mp ok
  obtain ⟨suffix₁, same₁⟩ := first here
  obtain ⟨suffix₂, same₂⟩ := second x there
  refine ⟨suffix₂.trans suffix₁, fun left ds => bind_ok_iff.mpr
    ⟨_, same₁ ?_ ds, same₂ left ds⟩⟩
  rintro rfl
  exact left (List.suffix_nil.mp suffix₂)

theorem ReadsAhead.bind (first : ReadsAhead f read)
    (second : ∀ x, ReadsAhead f (next x)) :
    ReadsAhead f fun cs => read cs >>= fun y => next y.1 y.2 := by
  intro cs z rest ok
  obtain ⟨⟨x, middle⟩, here, there⟩ := bind_ok_iff.mp ok
  obtain ⟨suffix₁, kinds₁⟩ := first here
  obtain ⟨suffix₂, kinds₂⟩ := second x there
  refine ⟨suffix₂.trans suffix₁, ?_⟩
  have left : rest ≠ [] → middle ≠ [] := by
    rintro left rfl
    exact left (List.suffix_nil.mp suffix₂)
  rcases kinds₁ with same₁ | ⟨verbose, rfl, open₁⟩
  · rcases kinds₂ with same₂ | ⟨verbose, rfl, open₂⟩
    · exact .inl fun ds cond =>
        bind_ok_iff.mpr ⟨_, same₁ ds (cond.imp_left left), same₂ ds cond⟩
    · exact .inr ⟨verbose, rfl, fun ds stops line =>
        bind_ok_iff.mpr ⟨_, same₁ ds (.inr stops), open₂ ds stops line⟩⟩
  · obtain rfl := List.suffix_nil.mp suffix₂
    exact .inr ⟨verbose, rfl, fun ds stops line => bind_ok_iff.mpr
      ⟨_, open₁ ds stops line, there⟩⟩

/-- A closing element makes up for what the reader before it may have left
unread. -/
theorem ReadsWithin.bind_closed (first : ReadsWithin read)
    (second : ∀ x, ReadsClosed (next x)) (some : ∀ x y, next x [] ≠ .ok y) :
    ReadsClosed fun cs => read cs >>= fun y => next y.1 y.2 := by
  intro cs z rest ok
  obtain ⟨⟨x, middle⟩, here, there⟩ := bind_ok_iff.mp ok
  obtain ⟨suffix₁, same₁⟩ := first here
  obtain ⟨suffix₂, same₂⟩ := second x there
  refine ⟨suffix₂.trans suffix₁, fun ds => bind_ok_iff.mpr
    ⟨_, same₁ ?_ ds, same₂ ds⟩⟩
  rintro rfl
  exact some x _ there

/-! ### One character first -/

theorem ReadsClosed.of_cons (nil : ∀ y, read [] ≠ .ok y)
    (cons : ∀ c, ReadsClosed fun cs => read (c :: cs)) :
    ReadsClosed read := by
  intro cs x rest ok
  cases cs with
  | nil => exact absurd ok (nil _)
  | cons c cs =>
    obtain ⟨suffix, same⟩ := cons c ok
    exact ⟨suffix.trans (List.suffix_cons c cs), same⟩

theorem ReadsAhead.of_cons (nil : ∀ y, read [] ≠ .ok y)
    (cons : ∀ c, ReadsAhead f fun cs => read (c :: cs)) :
    ReadsAhead f read := by
  intro cs x rest ok
  cases cs with
  | nil => exact absurd ok (nil _)
  | cons c cs =>
    obtain ⟨suffix, kinds⟩ := cons c ok
    exact ⟨suffix.trans (List.suffix_cons c cs), kinds⟩

/-- The first character decides how to go on: `yes` behind `c`, `no` from any
other on. -/
theorem ReadsClosed.choose {yes no : ElementReader α} (c : Char)
    (nil : ∀ y, read [] ≠ .ok y) (first : ∀ cs, read (c :: cs) = yes cs)
    (other : ∀ d cs, d ≠ c → read (d :: cs) = no (d :: cs))
    (h₁ : ReadsClosed yes) (h₂ : ReadsClosed no) : ReadsClosed read := by
  intro cs x rest ok
  cases cs with
  | nil => exact absurd ok (nil _)
  | cons d cs =>
    simp only [List.cons_append]
    by_cases same : d = c
    · subst same
      simp only [first] at ok ⊢
      exact ⟨(h₁ ok).1.trans (List.suffix_cons d cs), (h₁ ok).2⟩
    · rw [other d cs same] at ok
      simp only [other d _ same]
      exact h₂ ok

theorem ReadsWithin.choose {yes no : ElementReader α}
    (c : Char) (nil : ∀ x rest, read [] = .ok (x, rest) → rest = [])
    (first : ∀ cs, read (c :: cs) = yes cs)
    (other : ∀ d cs, d ≠ c → read (d :: cs) = no (d :: cs))
    (h₁ : ReadsWithin yes) (h₂ : ReadsWithin no) :
    ReadsWithin read := by
  intro cs x rest ok
  cases cs with
  | nil =>
    obtain rfl := nil x rest ok
    exact ⟨List.suffix_rfl, fun left => absurd rfl left⟩
  | cons d cs =>
    simp only [List.cons_append]
    by_cases same : d = c
    · subst same
      simp only [first] at ok ⊢
      exact ⟨(h₁ ok).1.trans (List.suffix_cons d cs), (h₁ ok).2⟩
    · rw [other d cs same] at ok
      simp only [other d _ same]
      exact h₂ ok

end Kinds

/-! ## Blanks and comments -/

theorem spanTrivia_comment {ds : List Char} (line : '\n' ∉ ds) :
    (spanTrivia true ds).2 = [] := by
  induction ds with
  | nil => rfl
  | cons c ds ih =>
    rw [List.mem_cons, not_or] at line
    have other : (c != '\n') = true := by simpa using fun h => line.1 h.symm
    rw [spanTrivia]
    simp [other, ih line.2]

/-- Blanks and comments end where they did, or in a comment that goes on. -/
theorem spanTrivia_append_cases (inComment : Bool) (cs : List Char) :
    (∀ ds, (spanTrivia inComment cs).2 ≠ [] ∨ (spanTrivia false ds).2 = ds →
        (spanTrivia inComment (cs ++ ds)).2 = (spanTrivia inComment cs).2 ++ ds)
      ∨ (spanTrivia inComment cs).2 = [] ∧ ∀ ds, '\n' ∉ ds →
      (spanTrivia inComment (cs ++ ds)).2 = [] := by
  induction cs generalizing inComment with
  | nil =>
    cases inComment with
    | false => exact .inl fun ds cond => cond.elim (fun h => absurd rfl h) id
    | true => exact .inr ⟨rfl, fun ds line => spanTrivia_comment line⟩
  | cons c cs ih =>
    simp only [List.cons_append, spanTrivia]
    split
    · exact ih _
    · exact .inl fun ds _ => rfl

/-- Moves over blanks and comments where they do not count. -/
def readGap (f : Flags) : ElementReader Unit := fun cs => .ok ((), f.dropGap cs)

theorem spanTrivia_of_stops {f : Flags} (verbose : f.verbose = true)
    {ds : List Char} (stops : f.Stops ds) :
    (spanTrivia false ds).2 = ds := by
  cases ds with
  | nil => rfl
  | cons c ds =>
    obtain ⟨blank, hash⟩ := stops.2.2 verbose
    rw [spanTrivia]
    simp [blank, hash]

theorem spanTrivia_suffix (inComment : Bool) (cs : List Char) :
    (spanTrivia inComment cs).2 <:+ cs :=
  ⟨_, spanTrivia_append inComment cs⟩

theorem Flags.dropGap_suffix (f : Flags) (cs : List Char) :
    f.dropGap cs <:+ cs := by
  rw [dropGap]
  split
  · exact spanTrivia_suffix false cs
  · exact List.suffix_rfl

theorem spanTrivia_rest (inComment : Bool) (cs : List Char) :
    (spanTrivia false (spanTrivia inComment cs).2).2
      = (spanTrivia inComment cs).2 := by
  induction cs generalizing inComment with
  | nil => rfl
  | cons c cs ih =>
    simp only [spanTrivia]
    split
    · exact ih _
    · next here =>
      have stays : ¬ (false || isBlank c || c == '#') = true :=
        fun h => here (by simp_all)
      simp only [spanTrivia, if_neg stays]

theorem Flags.dropGap_dropGap (f : Flags) (cs : List Char) :
    f.dropGap (f.dropGap cs) = f.dropGap cs := by
  by_cases verbose : f.verbose = true
  · simp only [dropGap, if_pos verbose, spanTrivia_rest]
  · simp only [dropGap, if_neg verbose]

theorem readsAhead_gap (f : Flags) : ReadsAhead f (readGap f) := by
  rintro cs _ _ ⟨⟩
  refine ⟨f.dropGap_suffix cs, ?_⟩
  by_cases verbose : f.verbose = true
  · simp only [readGap, Flags.dropGap, verbose, if_true, true_and]
    refine (spanTrivia_append_cases false cs).imp (fun same ds cond => ?_)
      fun ⟨ended, open_⟩ => ⟨ended, ?_⟩
    · rw [same ds (cond.imp_right (spanTrivia_of_stops verbose))]
    · exact fun ds _ line => by rw [open_ ds line]
  · exact .inl fun ds _ => by simp [readGap, Flags.dropGap, verbose]

/-- A reader behind blanks and comments. -/
theorem ReadsAhead.behind_gap {α : Type} {f : Flags} {read : ElementReader α}
    (h : ReadsAhead f read) :
    ReadsAhead f fun cs => read (f.dropGap cs) :=
  (readsAhead_gap f).bind fun _ => h

/-- Blanks and comments that end before the text does end there whatever
follows. -/
theorem Flags.dropGap_append (f : Flags) {cs : List Char}
    (left : f.dropGap cs ≠ []) (ds : List Char) :
    f.dropGap (cs ++ ds) = f.dropGap cs ++ ds := by
  have same := ((readsAhead_gap f).within rfl).2 left ds
  exact congrArg Prod.snd (Except.ok.inj same)

/-- The character behind blanks and comments decides how to go on: `yes` behind
`c`, `no` from any other on. -/
theorem ReadsAhead.choose {α : Type} {f : Flags} {read yes no : ElementReader α}
    (c : Char) (none : ∀ cs y, f.dropGap cs = [] → read cs ≠ .ok y)
    (first : ∀ cs cs', f.dropGap cs = c :: cs' → read cs = yes cs')
    (other : ∀ cs d cs', d ≠ c → f.dropGap cs = d :: cs' →
      read cs = no (d :: cs')) (h₁ : ReadsAhead f yes) (h₂ : ReadsAhead f no) :
    ReadsAhead f read := by
  intro cs x rest ok
  cases here : f.dropGap cs with
  | nil => exact absurd ok (none cs _ here)
  | cons d cs' =>
    have suffix : d :: cs' <:+ cs := here ▸ f.dropGap_suffix cs
    have more (ds : List Char) : f.dropGap (cs ++ ds) = d :: (cs' ++ ds) := by
      rw [f.dropGap_append (by rw [here]; exact List.cons_ne_nil d cs')
        ds, here]
      rfl
    by_cases same : d = c
    · subst same
      rw [first cs cs' here] at ok
      obtain ⟨suffix', kinds⟩ := h₁ ok
      refine ⟨suffix'.trans ((List.suffix_cons d cs').trans suffix), ?_⟩
      simpa only [fun ds => first (cs ++ ds) _ (more ds)] using kinds
    · rw [other cs d cs' same here] at ok
      obtain ⟨suffix', kinds⟩ := h₂ ok
      refine ⟨suffix'.trans suffix, ?_⟩
      simpa only [fun ds => other (cs ++ ds) d _ same
        (more ds), List.cons_append] using kinds

/-- What is read decides whether to go on. -/
theorem ReadsAhead.ite {α : Type} {f : Flags} {p : Prop} [Decidable p]
    {yes no : ElementReader α} (h₁ : ReadsAhead f yes) (h₂ : ReadsAhead f no) :
    ReadsAhead f fun cs => if p then yes cs else no cs := by
  by_cases h : p
  · simpa only [if_pos h] using h₁
  · simpa only [if_neg h] using h₂

theorem ReadsClosed.ite {α : Type} {p : Prop} [Decidable p]
    {yes no : ElementReader α} (h₁ : ReadsClosed yes) (h₂ : ReadsClosed no) :
    ReadsClosed fun cs => if p then yes cs else no cs := by
  by_cases h : p
  · simpa only [if_pos h] using h₁
  · simpa only [if_neg h] using h₂

theorem ReadsWithin.ite {α : Type} {p : Prop} [Decidable p]
    {yes no : ElementReader α} (h₁ : ReadsWithin yes) (h₂ : ReadsWithin no) :
    ReadsWithin fun cs => if p then yes cs else no cs := by
  by_cases h : p
  · simpa only [if_pos h] using h₁
  · simpa only [if_neg h] using h₂

theorem ReadsAhead.pure {α : Type} {f : Flags} (x : α) :
    ReadsAhead f fun cs => .ok (x, cs) :=
  (ReadsClosed.pure x).ahead

theorem ReadsAhead.error {α : Type} {f : Flags} (e : PatternFault) :
    ReadsAhead f fun _ => (.error e : Except _ (α × _)) :=
  (ReadsClosed.error e).ahead

/-! ## Characters of a kind -/

theorem dropWhile_append_of_ne_nil {p : Char → Bool} {cs : List Char}
    (left : cs.dropWhile p ≠ []) (ds : List Char) :
    (cs ++ ds).dropWhile p = cs.dropWhile p ++ ds := by
  rw [List.dropWhile_append, if_neg (by rwa [List.isEmpty_iff])]

theorem takeWhile_append_of_ne_nil {p : Char → Bool} {cs : List Char}
    (left : cs.dropWhile p ≠ []) (ds : List Char) :
    (cs ++ ds).takeWhile p = cs.takeWhile p := by
  rw [List.takeWhile_append, if_neg]
  intro whole
  have lengths :=
    congrArg List.length (List.takeWhile_append_dropWhile (p := p) (l := cs))
  rw [List.length_append, whole] at lengths
  exact left (List.length_eq_zero_iff.mp (by omega))

theorem readsWithin_dropWhile (p : Char → Bool) :
    ReadsWithin fun cs => .ok ((), cs.dropWhile p) := by
  rintro cs _ _ ⟨⟩
  exact ⟨List.dropWhile_suffix p, fun left ds => by
    simp only [dropWhile_append_of_ne_nil left]⟩

/-- The characters of a kind that a text starts with, over the gaps between
them, and what is left; `cs` is shorter than `bound`. -/
def spanGaps (f : Flags) (keep : Char → Bool) :
    (bound : Nat) → List Char → List Char × List Char
  | 0, cs => ([], cs)
  | _ + 1, [] => ([], [])
  | bound + 1, c :: cs =>
    if keep c then
      let (kept, rest) := spanGaps f keep bound (f.dropGap cs)
      (c :: kept, rest)
    else ([], c :: cs)

variable {f : Flags} {keep : Char → Bool}

theorem spanGaps_append (bound : Nat) (cs : List Char) :
    (spanGaps f keep bound cs).2 <:+ cs ∧ ∀ bound' ds,
      (spanGaps f keep bound cs).2 ≠ [] →
      (cs ++ ds).length < bound' → cs.length < bound →
      spanGaps f keep bound' (cs ++ ds)
      = ((spanGaps f keep bound cs).1, (spanGaps f keep bound cs).2 ++ ds) := by
  induction bound generalizing cs with
  | zero =>
    exact ⟨List.suffix_rfl, fun _ _ _ _ h => absurd h (Nat.not_lt_zero _)⟩
  | succ bound ih =>
    cases cs with
    | nil => exact ⟨List.suffix_rfl, fun _ _ left => absurd rfl left⟩
    | cons c cs =>
      simp only [spanGaps]
      split
      · next kept =>
        obtain ⟨suffix, same⟩ := ih (f.dropGap cs)
        have whole : f.dropGap cs <:+ cs := f.dropGap_suffix cs
        refine ⟨suffix.trans (whole.trans (List.suffix_cons c cs)),
          fun bound' ds left enough enough' => ?_⟩
        obtain ⟨bound', rfl⟩ :=
          Nat.exists_eq_add_one_of_ne_zero (Nat.ne_zero_of_lt enough)
        have gap : f.dropGap (cs ++ ds) = f.dropGap cs ++ ds := by
          refine f.dropGap_append (fun none => left ?_) ds
          simpa [none] using suffix
        have shorter := whole.length_le
        simp only [List.length_append, List.length_cons] at enough enough'
        simp only [List.cons_append, spanGaps, if_pos kept, gap]
        rw [same bound' ds left (by simp only [List.length_append]; omega)
          (by omega)]
      · next other =>
        refine ⟨List.suffix_rfl, fun bound' ds left enough enough' => ?_⟩
        obtain ⟨bound', rfl⟩ :=
          Nat.exists_eq_add_one_of_ne_zero (Nat.ne_zero_of_lt enough)
        simp only [List.cons_append, spanGaps, if_neg other]

theorem readsWithin_spanGaps (f : Flags) (keep : Char → Bool) :
    ReadsWithin fun cs => .ok (spanGaps f keep (cs.length + 1) cs) := by
  intro cs x rest ok
  obtain ⟨suffix, same⟩ := @spanGaps_append f keep (cs.length + 1) cs
  have read := Except.ok.inj ok
  simp only [read] at suffix same
  exact ⟨suffix, fun left ds => congrArg _
    (same _ ds left (Nat.lt_succ_self _) (Nat.lt_succ_self _))⟩

end Lexigram.Pattern
