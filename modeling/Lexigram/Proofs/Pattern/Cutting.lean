import Lexigram.Proofs.Pattern.Elements

/-!
Cutting off what stands behind. The pattern of a rule is compiled in front of a
parenthesis and an anchor. A reader that leaves both of them reads the same
where they are cut off (`ReadsCut`). Only the brace behind a word boundary can
be taken for something else (`readEscape_cut`).
-/

namespace Lexigram.Pattern

open Text Unicode

/-- What stands behind a pattern where it is compiled as a whole. -/
def closing : List Char :=
  [')', '$']

section Kinds

variable {α β : Type}

/-- What is left of a text in front of `closing` is left of the text by
itself. -/
structure ReadsCut (read : ElementReader α) : Prop where
  suffix : ∀ ⦃cs x rest⦄, read cs = .ok (x, rest) → rest <:+ cs
  cut : ∀ ⦃cs x rest⦄, read (cs ++ closing) = .ok (x, rest ++ closing) →
    read cs = .ok (x, rest)

theorem exists_of_closing_suffix {rest middle : List Char}
    (suffix : rest ++ closing <:+ middle) :
    ∃ kept, middle = kept ++ closing := by
  obtain ⟨front, rfl⟩ := suffix
  exact ⟨front ++ rest, by simp⟩

theorem eq_of_closing {rest rest' : List Char}
    (same : rest ++ closing = rest' ++ closing) : rest = rest' :=
  List.append_cancel_right same

theorem eq_nil_of_closing {rest : List Char}
    (same : closing = rest ++ closing) : rest = [] := by
  simpa using same

/-- A part of `closing` does not have all of it. -/
theorem not_closing_suffix {rest ds : List Char}
    (short : ds.length < closing.length) : ¬ rest ++ closing <:+ ds := by
  intro suffix
  have length := suffix.length_le
  rw [List.length_append] at length
  omega

namespace ReadsCut

variable {read : ElementReader α} {next : α → ElementReader β}

theorem pure (x : α) : ReadsCut fun cs => .ok (x, cs) where
  suffix := by
    rintro cs _ _ ⟨⟩
    exact List.suffix_rfl
  cut := by
    intro cs y rest ok
    obtain ⟨rfl, left⟩ := Prod.mk.inj (Except.ok.inj ok)
    rw [List.append_cancel_right left]

theorem error (e : PatternFault) :
    ReadsCut fun _ => (.error e : Except _ (α × _)) :=
  ⟨nofun, nofun⟩

theorem bind (first : ReadsCut read) (second : ∀ x, ReadsCut (next x)) :
    ReadsCut fun cs => read cs >>= fun y => next y.1 y.2 where
  suffix := by
    intro cs z rest ok
    obtain ⟨⟨x, middle⟩, here, there⟩ := bind_ok_iff.mp ok
    exact ((second x).suffix there).trans (first.suffix here)
  cut := by
    intro cs z rest ok
    obtain ⟨⟨x, middle⟩, here, there⟩ := bind_ok_iff.mp ok
    obtain ⟨kept, rfl⟩ := exists_of_closing_suffix ((second x).suffix there)
    exact bind_ok_iff.mpr ⟨_, first.cut here, (second x).cut there⟩

theorem ite {p : Prop} [Decidable p] {yes no : ElementReader α}
    (h₁ : ReadsCut yes) (h₂ : ReadsCut no) :
    ReadsCut fun cs => if p then yes cs else no cs := by
  by_cases h : p
  · simpa only [if_pos h] using h₁
  · simpa only [if_neg h] using h₂

/-- Something has to be read, and that cannot be the parenthesis. -/
theorem of_cons (nil : ∀ y, read [] ≠ .ok y)
    (cons : ∀ c, ReadsCut fun cs => read (c :: cs)) : ReadsCut read where
  suffix := by
    intro cs x rest ok
    cases cs with
    | nil => exact absurd ok (nil _)
    | cons c cs => exact ((cons c).suffix ok).trans (List.suffix_cons c cs)
  cut := by
    intro cs x rest ok
    cases cs with
    | nil =>
      exact absurd ((cons ')').suffix ok) (not_closing_suffix (by decide))
    | cons c cs => exact (cons c).cut ok

/-- The first character decides how to go on, and the parenthesis does not
decide for `yes`. -/
theorem choose {yes no : ElementReader α} (c : Char)
    (nil : read [] = no []) (first : ∀ cs, read (c :: cs) = yes cs)
    (other : ∀ d cs, d ≠ c → read (d :: cs) = no (d :: cs)) (plain : ')' ≠ c)
    (h₁ : ReadsCut yes) (h₂ : ReadsCut no) :
    ReadsCut read where
  suffix := by
    intro cs x rest ok
    cases cs with
    | nil => exact h₂.suffix (nil ▸ ok)
    | cons d cs =>
      by_cases same : d = c
      · subst same
        exact (h₁.suffix (first cs ▸ ok)).trans (List.suffix_cons d cs)
      · exact h₂.suffix (other d cs same ▸ ok)
  cut := by
    intro cs x rest ok
    cases cs with
    | nil => exact nil ▸ h₂.cut ((other ')' ['$'] plain) ▸ ok)
    | cons d cs =>
      by_cases same : d = c
      · subst same
        rw [List.cons_append, first] at ok
        rw [first]
        exact h₁.cut ok
      · rw [List.cons_append, other d _ same] at ok
        rw [other d _ same]
        exact h₂.cut ok

end ReadsCut

end Kinds

/-! ## Gaps -/

/-- Blanks and comments end where they do without `closing`, or in a comment
that goes on over it. -/
theorem Flags.dropGap_closing (f : Flags) (cs : List Char) :
    f.dropGap (cs ++ closing) = f.dropGap cs ++ closing
      ∨ f.dropGap (cs ++ closing) = [] := by
  have stops : f.Stops closing := ⟨by decide, by decide, fun _ => by decide⟩
  rcases (readsAhead_gap f (rfl : readGap f cs = .ok ((), f.dropGap cs))).2
    with same | ⟨-, -, open_⟩
  · exact .inl (congrArg Prod.snd (Except.ok.inj (same closing (.inr stops))))
  · exact .inr
      (congrArg Prod.snd (Except.ok.inj (open_ closing stops (by decide))))

theorem Flags.dropGap_eq_of_closing {f : Flags} {cs rest : List Char}
    (left : f.dropGap (cs ++ closing) = rest ++ closing) :
    f.dropGap cs = rest := by
  rcases f.dropGap_closing cs with same | none
  · exact List.append_cancel_right (same.symm.trans left)
  · rw [none] at left
    cases rest <;> cases left

theorem readsCut_gap (f : Flags) : ReadsCut (readGap f) where
  suffix := fun _ _ _ ok => (readsAhead_gap f ok).1
  cut := by
    intro cs x rest ok
    have left := congrArg Prod.snd (Except.ok.inj ok)
    exact congrArg (fun rest => Except.ok ((), rest))
      (Flags.dropGap_eq_of_closing left)

/-- A reader behind blanks and comments. -/
theorem ReadsCut.behind_gap {α : Type} {read : ElementReader α} (f : Flags)
    (h : ReadsCut read) :
    ReadsCut fun cs => read (f.dropGap cs) :=
  (readsCut_gap f).bind fun _ => h

/-! ## Characters of a kind -/

theorem readsCut_dropWhile {p : Char → Bool} (stops : p ')' = false) :
    ReadsCut fun cs => .ok ((), cs.dropWhile p) where
  suffix := fun _ _ _ ok => (readsWithin_dropWhile p ok).1
  cut := by
    intro cs x rest ok
    have left := congrArg Prod.snd (Except.ok.inj ok)
    simp only [List.dropWhile_append] at left
    split at left
    · next none =>
      have whole : closing.dropWhile p = closing := by simp [closing, stops]
      rw [whole] at left
      have same : rest = [] := by simpa using left.symm
      simp [same, List.isEmpty_iff.mp none]
    · simp [List.append_cancel_right left]

theorem spanGaps_closing {f : Flags} {keep : Char → Bool}
    (stops : keep ')' = false) {bound bound' : Nat} {cs kept rest : List Char}
    (enough : (cs ++ closing).length < bound) (enough' : cs.length < bound')
    (ok : spanGaps f keep bound (cs ++ closing) = (kept, rest ++ closing)) :
    spanGaps f keep bound' cs = (kept, rest) := by
  induction bound generalizing bound' cs kept with
  | zero => exact absurd enough (Nat.not_lt_zero _)
  | succ bound ih =>
    obtain ⟨bound', rfl⟩ :=
      Nat.exists_eq_add_one_of_ne_zero (Nat.ne_zero_of_lt enough')
    cases cs with
    | nil =>
      simp only [List.nil_append, closing, spanGaps, stops] at ok
      obtain ⟨rfl, left⟩ := Prod.mk.inj ok
      have same := eq_nil_of_closing left
      rw [same, spanGaps]
    | cons c cs =>
      simp only [List.cons_append, spanGaps] at ok ⊢
      have shorter := (f.dropGap_suffix cs).length_le
      simp only [List.length_append, List.length_cons] at enough enough'
      split at ok
      · next kept' =>
        obtain ⟨rfl, left⟩ := Prod.mk.inj ok
        rw [if_pos kept']
        rcases f.dropGap_closing cs with same | none
        · rw [same] at left ⊢
          have inside : spanGaps f keep bound' (f.dropGap cs)
              = ((spanGaps f keep bound (f.dropGap cs ++ closing)).1, rest) :=
            ih (by simp only [List.length_append]; omega) (by omega)
              (Prod.ext rfl left)
          rw [inside]
        · rw [none] at left
          exact absurd (left ▸ (spanGaps_append bound []).1)
            (not_closing_suffix (by decide))
      · next other =>
        obtain ⟨rfl, left⟩ := Prod.mk.inj ok
        rw [if_neg other]
        have same : c :: cs = rest := eq_of_closing left
        rw [same]

theorem readsCut_spanGaps (f : Flags) {keep : Char → Bool}
    (stops : keep ')' = false) :
    ReadsCut fun cs => .ok (spanGaps f keep (cs.length + 1) cs) where
  suffix := fun _ _ _ ok => (readsWithin_spanGaps f keep ok).1
  cut := by
    intro cs x rest ok
    have inside := spanGaps_closing stops (Nat.lt_succ_self _)
      (Nat.lt_succ_self _) (Except.ok.inj ok)
    exact congrArg Except.ok inside

section Readers

variable (f : Flags)

/-! ## Escapes -/

theorem readsCut_hexDigits (count : Nat) :
    ReadsCut (readHexDigits f count) := by
  induction count with
  | zero => exact .pure []
  | succ count ih =>
    refine .of_cons nofun fun c => ?_
    simp only [readHexDigits]
    cases hexDigit? c with
    | none => exact .error _
    | some d => exact (ih.behind_gap f).bind fun digits => .pure (d :: digits)

variable {f} in
theorem readBraced_closing {bound : Nat} {cs rest name : List Char}
    (ok : readBraced f bound (cs ++ closing) = .ok (name, rest ++ closing)) :
    readBraced f bound cs = .ok (name, rest) := by
  induction bound generalizing cs name with
  | zero => cases ok
  | succ bound ih =>
    rw [readBraced] at ok ⊢
    rcases f.dropGap_closing cs with same | none
    · rw [same] at ok
      cases here : f.dropGap cs with
      | nil =>
        -- the brace would have to stand behind the parenthesis
        rw [here] at ok
        obtain ⟨⟨name', rest'⟩, there, same⟩ := bind_ok_iff.mp ok
        cases same
        exact absurd (readBraced_append [] (Nat.lt_succ_self _) there).1
          (not_closing_suffix (by decide))
      | cons c cs' =>
        rw [here] at ok
        simp only [List.cons_append] at ok ⊢
        split at ok
        · next close =>
          rw [if_pos close]
          obtain ⟨rfl, left⟩ := Prod.mk.inj (Except.ok.inj ok)
          rw [List.append_cancel_right left]
        · next other =>
          rw [if_neg other]
          obtain ⟨⟨name', rest'⟩, there, same⟩ := bind_ok_iff.mp ok
          cases same
          exact bind_ok_iff.mpr ⟨_, ih there, rfl⟩
    · rw [none] at ok
      cases ok

theorem readsCut_braced :
    ReadsCut fun cs => readBraced f (cs.length + 1) cs where
  suffix := fun _ _ _ ok => (readsClosed_braced f ok).1
  cut := by
    intro cs name rest ok
    simpa using (readBraced_append [] (by simp) (readBraced_closing ok)).2

theorem readsCut_hexBraced :
    ReadsCut fun cs => readHexBraced f (cs.length + 1) cs where
  suffix := fun _ _ _ ok => (readsClosed_hexBraced f ok).1
  cut := by
    intro cs digits rest ok
    obtain ⟨name, there, read⟩ := readHexBraced_ok_iff.mp ok
    exact readHexBraced_ok_iff.mpr ⟨name, (readsCut_braced f).cut there, read⟩

/-- The digits of a code point behind blanks and comments. -/
def readHexAt (width : Nat) : ElementReader Atom
  | '\x7b' :: cs => do
    let (digits, rest) ← readHexBraced f (cs.length + 1) cs
    if digits.isEmpty then .error .badEscape
    else if isScalar (hexValue digits) then
        return (.point (hexValue digits) false, f.dropGap rest)
    else .error .badCodePoint
  | cs => do
    let (digits, rest) ← readHexDigits f width cs
    if isScalar (hexValue digits) then
      return (.point (hexValue digits) (width = 2), rest)
    else .error .badCodePoint

theorem readsCut_hex (width : Nat) : ReadsCut (readHex f width) := by
  have braced := (readsCut_hexBraced f).bind fun digits =>
    ReadsCut.ite (p := digits.isEmpty = true) (.error .badEscape)
      (.ite (p := isScalar (hexValue digits) = true)
      ((ReadsCut.pure (Atom.point (hexValue digits) false)).behind_gap f)
        (.error .badCodePoint))
  have counted := (readsCut_hexDigits f width).bind fun digits =>
    ReadsCut.ite (p := isScalar (hexValue digits) = true)
      (.pure (Atom.point (hexValue digits) (width = 2))) (.error .badCodePoint)
  have at_ : ReadsCut (readHexAt f width) := by
    refine .choose '\x7b' ?_ (fun _ => rfl) (fun d cs other => ?_)
      (by decide) braced counted
    · rfl
    · unfold readHexAt
      split
      · next same => exact absurd (List.cons.inj same).1 other
      · rfl
  exact at_.behind_gap f

/-- The name of a property behind blanks and comments. -/
def readPropertyName : ElementReader (List Char)
  | '\x7b' :: cs => readBraced f (cs.length + 1) cs
  | cs => readPropertyLetter f cs

theorem readsCut_propertyLetter : ReadsCut (readPropertyLetter f) := by
  refine .of_cons nofun fun c => ?_
  by_cases backslash : c = '\\'
  · subst backslash
    exact .error _
  · simpa [readPropertyLetter, backslash] using (ReadsCut.pure [c]).behind_gap f

theorem readsCut_findProperty (negated : Bool) (name : List Char) :
    ReadsCut (findProperty f negated name) := by
  unfold findProperty
  cases propertySet? name with
  | none => exact .error _
  | some named => exact .ite (.pure _) (.error _)

theorem readProperty_eq (negated : Bool) : readProperty f negated =
    fun cs => readPropertyName f (f.dropGap cs) >>= fun name =>
      findProperty f negated name.1 name.2 := by
  funext cs
  unfold readProperty
  generalize f.dropGap cs = cs
  cases cs with
  | nil => rfl
  | cons c cs =>
    by_cases brace : c = '\x7b'
    · subst brace
      rfl
    · by_cases backslash : c = '\\'
      · subst backslash
        rfl
      · simp [readPropertyName, readPropertyLetter, brace]
        rfl

theorem readsCut_property (negated : Bool) :
    ReadsCut (readProperty f negated) := by
  have name : ReadsCut (readPropertyName f) := by
    refine .choose '\x7b' ?_ (fun _ => rfl) (fun d cs other => ?_) (by decide)
      (readsCut_braced f) (readsCut_propertyLetter f)
    · rfl
    · simp [readPropertyName, other]
  rw [readProperty_eq]
  exact (name.behind_gap f).bind fun name =>
    readsCut_findProperty f negated name

/-- The start of a repetition that `closing` would have to go on with. -/
def Dangles (rest : List Char) : Prop :=
  ∃ inside, rest = '\x7b' :: inside ∧ f.dropGap inside = []

/-- A word boundary is read as it is by itself, unless it has a brace behind it
and then nothing up to `closing`. -/
theorem readBoundary_cut {cs rest : List Char} {a : Anchor}
    (ok : readBoundary f (cs ++ closing) = .ok (a, rest ++ closing)) :
    readBoundary f cs = .ok (a, rest) ∨ Dangles f rest := by
  cases cs with
  | nil =>
    -- the parenthesis is no brace
    obtain ⟨rfl, left⟩ := Prod.mk.inj (Except.ok.inj ok)
    have same := eq_nil_of_closing left
    subst same
    exact .inl rfl
  | cons c cs =>
    by_cases brace : c = '\x7b'
    · subst brace
      unfold readBoundary at ok ⊢
      simp only [List.cons_append] at ok ⊢
      rcases f.dropGap_closing cs with same | none
      · rw [same] at ok
        cases here : f.dropGap cs with
        | nil =>
          rw [here] at ok
          obtain ⟨rfl, left⟩ := Prod.mk.inj (Except.ok.inj ok)
          have left' : '\x7b' :: cs = rest := eq_of_closing left
          exact .inr ⟨cs, left'.symm, here⟩
        | cons c behind =>
          rw [here] at ok
          simp only [List.cons_append] at ok ⊢
          split at ok
          · next letter =>
            rw [if_pos letter]
            simp only [readBoundaryName_eq] at ok ⊢
            generalize named : spanGaps f isBoundaryLetter _
              (c :: (behind ++ closing)) = read at ok
            obtain ⟨name, behind'⟩ := read
            simp only at ok
            split at ok
            · next found =>
              cases ok
              have inside : spanGaps f isBoundaryLetter (behind.length + 2)
                  (c :: behind) = (name, '\x7d' :: rest) :=
                spanGaps_closing (by decide) (by simp) (by simp) named
              left
              rw [inside]
              simp only [found]
            · cases ok
          · next other =>
            rw [if_neg other]
            obtain ⟨rfl, left⟩ := Prod.mk.inj (Except.ok.inj ok)
            have left' : '\x7b' :: cs = rest := eq_of_closing left
            exact .inl (by rw [left'])
      · rw [none] at ok
        cases ok
    · have plain (cs : List Char) : readBoundary f (c :: cs)
          = .ok (.wordBoundary !f.unicode, c :: cs) := by
        simp [readBoundary, brace]
      rw [List.cons_append, plain] at ok
      rw [plain]
      obtain ⟨rfl, left⟩ := Prod.mk.inj (Except.ok.inj ok)
      have left' : c :: cs = rest := eq_of_closing left
      exact .inl (by rw [left'])

theorem readsCut_escape_other {c : Char} (other : c ≠ 'b') :
    ReadsCut fun cs => readEscape f (c :: cs) := by
  simp only [readEscape, if_neg other]
  refine .ite (.error _)
    (.ite (readsCut_hex f 2) (.ite (readsCut_hex f 4) (.ite (readsCut_hex f 8)
      (.ite (readsCut_property f false) (.ite (readsCut_property f true) ?_)))))
  split
  · exact .pure _
  · exact .pure _
  · exact .pure _
  · exact .ite (.pure _) (.error _)

/-- An escape is read as it is by itself, but for a word boundary. -/
theorem readEscape_cut {cs rest : List Char} {a : Atom}
    (ok : readEscape f (cs ++ closing) = .ok (a, rest ++ closing)) :
    readEscape f cs = .ok (a, rest)
      ∨ (∃ b, a = .anchor b) ∧ Dangles f rest := by
  cases cs with
  | nil =>
    have suffix := (readsCut_escape_other f (by decide : ')' ≠ 'b')).suffix ok
    exact absurd suffix (not_closing_suffix (by decide))
  | cons c cs =>
    by_cases boundary : c = 'b'
    · subst boundary
      have read (cs : List Char) :
          readEscape f ('b' :: cs) = readBoundary f cs >>= fun read =>
            .ok (.anchor read.1, read.2) :=
        rfl
      rw [List.cons_append, read] at ok
      obtain ⟨⟨b, rest'⟩, there, same⟩ := bind_ok_iff.mp ok
      cases same
      rcases readBoundary_cut f there with alone | dangles
      · exact .inl (by rw [read, alone]; rfl)
      · exact .inr ⟨⟨b, rfl⟩, dangles⟩
    · exact .inl ((readsCut_escape_other f boundary).cut ok)

/-! ## Bounds -/

theorem readsCut_count : ReadsCut (readCount f) := by
  have blanks := readsCut_dropWhile (p := isBlank) (by decide)
  have digits : ReadsCut fun cs => .ok
    (spanGaps f isDecimal (cs.length + 1) cs) := readsCut_spanGaps f (by decide)
  have whole := blanks.bind fun _ => digits.bind fun kept =>
    let digits := reversedDigits kept ++ []
    let n := digits.foldr (fun d n => 10 * n + d) 0
    .ite (p := digits.isEmpty = true)
      (blanks.bind fun _ => .pure (none : Option Nat))
      (.ite (p := n < 0x100000000)
        (blanks.bind fun _ => .pure (some n)) (.error .badCount))
  refine Eq.subst (motive := ReadsCut) (funext fun cs => ?_) whole
  simp only [readCount, readDigits_eq]
  rfl

theorem readsCut_upperEnd (n : Nat) (most : Option Nat) :
    ReadsCut (readUpperEnd n most) := by
  refine .of_cons nofun fun c => ?_
  by_cases close : c = '\x7d'
  · subst close
    cases most with
    | none => exact .error _
    | some m => exact .ite (.pure _) (.error _)
  · have other (cs : List Char) : readUpperEnd n most (c :: cs)
      = .error .badCount := by simp [readUpperEnd, close]
    simp only [other]
    exact .error _

theorem readsCut_upper (n : Nat) : ReadsCut (readUpper f n) := by
  have bound := (readsCut_count f).bind fun most => readsCut_upperEnd n most
  refine .choose '\x7d' ?_ (fun _ => rfl) (fun d cs other => ?_) (by decide)
    (.pure (n, none)) bound
  · rfl
  · simp [readUpper, other]

theorem readsCut_behindLower (least : Option Nat) :
    ReadsCut (readBehindLower f least) := by
  refine .of_cons nofun fun c => ?_
  by_cases close : c = '\x7d'
  · subst close
    cases least with
    | none => exact .error _
    | some n => exact .pure _
  by_cases comma : c = ','
  · subst comma
    cases least with
    | none => exact .error _
    | some n => exact (readsCut_upper f n).behind_gap f
  · have other (cs : List Char) : readBehindLower f least (c :: cs)
        = .error .badCount := by
      simp [readBehindLower, close, comma]
    simp only [other]
    exact .error _

theorem readsCut_boundPair : ReadsCut (readBoundPair f) := by
  rw [funext (readBoundPair_eq f)]
  exact ((readsCut_count f).behind_gap f).bind fun least =>
    readsCut_behindLower f least

/-- A repetition that goes on with `closing` has no bounds. -/
theorem readBounds_closing {inside : List Char} (gap : f.dropGap inside = []) :
    readBounds f (inside ++ closing) = .error .badCount := by
  rcases f.dropGap_closing inside with same | none
  · rw [readBounds, same, gap]
    rfl
  · rw [readBounds, none]
    rfl

end Readers

end Lexigram.Pattern
