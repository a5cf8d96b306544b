import Lexigram.Proofs.Pattern.Lookahead

/-!
How far escapes look ahead: a fixed number of digits and what stands in braces
are read to their end, and only `\b` looks at the character behind it, which may
open the name of a boundary.
-/

namespace Lexigram.Pattern

open Text Unicode

section Escapes

variable (f : Flags)

theorem readsAhead_hexDigits (count : Nat) :
    ReadsAhead f (readHexDigits f count) := by
  induction count with
  | zero => exact (ReadsClosed.pure []).ahead
  | succ count ih =>
    refine .of_cons nofun fun c => ?_
    simp only [readHexDigits]
    cases hexDigit? c with
    | none => exact (ReadsClosed.error _).ahead
    | some d =>
      exact ih.behind_gap.bind fun digits =>
        (ReadsClosed.pure (d :: digits)).ahead

/-! ## Braces -/

theorem bind_cons_ok_iff {α : Type}
    {x : Except PatternFault (List α × List Char)} {a : α} {as : List α}
    {rest : List Char} :
    (do let (as, rest) ← x; return (a :: as, rest)) = Except.ok (as, rest) ↔
      ∃ as', x = .ok (as', rest) ∧ as = a :: as' := by
  cases x with
  | error e => exact ⟨nofun, nofun⟩
  | ok y =>
    constructor
    · rintro ⟨⟩
      exact ⟨y.1, rfl, rfl⟩
    · rintro ⟨_, ⟨⟩, rfl⟩
      rfl

variable {f} in
/-- The digits between braces are the characters there, one by one. -/
theorem readHexBraced_ok_iff {bound : Nat} {cs rest : List Char}
    {digits : List Nat} :
    readHexBraced f bound cs = .ok (digits, rest) ↔
      ∃ name, readBraced f bound cs = .ok (name, rest) ∧
      name.mapM hexDigit? = some digits := by
  induction bound generalizing cs digits with
  | zero => simp [readHexBraced, readBraced]
  | succ bound ih =>
    rw [readHexBraced, readBraced]
    split
    · simp
    · next c cs' here =>
      split
      · constructor
        · rintro ⟨⟩
          exact ⟨[], rfl, rfl⟩
        · rintro ⟨_, ⟨⟩, ⟨⟩⟩
          rfl
      · simp only [bind_cons_ok_iff]
        cases digit : hexDigit? c with
        | none =>
          constructor
          · exact nofun
          · rintro ⟨_, ⟨name, -, rfl⟩, read⟩
            rw [List.mapM_cons, digit] at read
            cases read
        | some d =>
          simp only [bind_cons_ok_iff]
          constructor
          · rintro ⟨digits', there, rfl⟩
            obtain ⟨name, there, read⟩ := ih.mp there
            exact ⟨_, ⟨name, there, rfl⟩,
              by rw [List.mapM_cons, digit, read]; rfl⟩
          · rintro ⟨_, ⟨name, there, rfl⟩, read⟩
            rw [List.mapM_cons, digit] at read
            obtain ⟨_, ⟨⟩, others⟩ := Option.bind_eq_some_iff.mp read
            obtain ⟨digits', read, same⟩ := Option.bind_eq_some_iff.mp others
            exact ⟨digits', ih.mpr ⟨name, there, read⟩,
              (Option.some.inj same).symm⟩

variable {f} in
/-- What is read up to a closing brace does not depend on the bound, nor on what
stands behind the brace. -/
theorem readBraced_append {bound bound' : Nat} {cs rest name : List Char}
    (ds : List Char) (enough : (cs ++ ds).length < bound')
    (ok : readBraced f bound cs = .ok (name, rest)) :
    rest <:+ cs ∧ readBraced f bound' (cs ++ ds) = .ok (name, rest ++ ds) := by
  induction bound generalizing bound' cs name with
  | zero => cases ok
  | succ bound ih =>
    obtain ⟨bound', rfl⟩ :=
      Nat.exists_eq_add_one_of_ne_zero (Nat.ne_zero_of_lt enough)
    have shorter := (f.dropGap_suffix cs).length_le
    rw [readBraced] at ok ⊢
    split at ok
    · cases ok
    · next c cs' here =>
      rw [f.dropGap_append (by rw [here]; exact List.cons_ne_nil c cs'), here]
      have suffix : cs' <:+ cs :=
        (List.suffix_cons c cs').trans (here ▸ f.dropGap_suffix cs)
      simp only [List.cons_append]
      split at ok
      · next close =>
        cases ok
        exact ⟨suffix, by rw [if_pos close]⟩
      · next other =>
        rw [if_neg other]
        obtain ⟨⟨name', rest'⟩, here', there⟩ := bind_ok_iff.mp ok
        cases there
        have enough' : (cs' ++ ds).length < bound' := by
          rw [here] at shorter
          simp only [List.length_append, List.length_cons] at enough shorter ⊢
          omega
        obtain ⟨suffix', same⟩ := ih enough' here'
        exact ⟨suffix'.trans suffix, bind_ok_iff.mpr ⟨_, same, rfl⟩⟩

theorem readsClosed_braced :
    ReadsClosed fun cs => readBraced f (cs.length + 1) cs := fun _ _ _ ok =>
  ⟨(readBraced_append [] (Nat.lt_succ_self _) ok).1, fun _ =>
    (readBraced_append _ (Nat.lt_succ_self _) ok).2⟩

theorem readsClosed_hexBraced :
    ReadsClosed fun cs => readHexBraced f (cs.length + 1) cs := by
  intro cs digits rest ok
  obtain ⟨name, there, read⟩ := readHexBraced_ok_iff.mp ok
  obtain ⟨suffix, same⟩ := readsClosed_braced f there
  exact ⟨suffix, fun ds => readHexBraced_ok_iff.mpr ⟨name, same ds, read⟩⟩

/-! ## Code points -/

theorem readsAhead_hex {width : Nat} (some : 0 < width) :
    ReadsAhead f (readHex f width) := by
  obtain ⟨n, rfl⟩ := Nat.exists_eq_add_one_of_ne_zero (Nat.ne_of_gt some)
  have braced := (readsClosed_hexBraced f).ahead.bind fun digits =>
    ReadsAhead.ite (f := f) (p := digits.isEmpty = true) (.error .badEscape)
      (.ite (p := isScalar (hexValue digits) = true)
      (ReadsAhead.pure (Atom.point (hexValue digits) false)).behind_gap
        (.error .badCodePoint))
  have counted := (readsAhead_hexDigits f (n + 1)).bind fun digits =>
    ReadsAhead.ite (f := f) (p := isScalar (hexValue digits) = true)
      (.pure (Atom.point (hexValue digits) (n + 1 = 2))) (.error .badCodePoint)
  refine .choose '\x7b' (fun cs y none => ?_) (fun cs cs' here => ?_)
    (fun cs d cs' other here => ?_) braced counted
  · simp only [readHex, none]
    exact nofun
  · simp only [readHex, here]
    rfl
  · simp only [readHex, here]
    split
    · next same => exact absurd (List.cons.inj same).1 other
    · rfl

/-! ## Properties -/

/-- The name of a property that is a letter. -/
def readPropertyLetter : List Char → Except PatternFault (List Char × List Char)
  | [] => .error .badEscape
  | '\\' :: _ => .error .unknownProperty
  | c :: cs => .ok ([c], f.dropGap cs)

/-- The property with a name, if it is a set of the table. -/
def findProperty (negated : Bool) (name rest : List Char) :
    Except PatternFault (Atom × List Char) :=
  match propertySet? name with
  | none => .error .unknownProperty
  | some (set, inverted) =>
    if f.unicode then
      .ok (.set (f.closeSet (negated != inverted) (.table set)), rest)
    else .error .notBytes

theorem readsAhead_propertyLetter : ReadsAhead f (readPropertyLetter f) := by
  refine .of_cons nofun fun c => ?_
  by_cases backslash : c = '\\'
  · subst backslash
    exact .error _
  · simpa [readPropertyLetter, backslash] using (ReadsAhead.pure [c]).behind_gap

theorem readsAhead_findProperty (negated : Bool) (name : List Char) :
    ReadsAhead f (findProperty f negated name) := by
  unfold findProperty
  cases propertySet? name with
  | none => exact .error _
  | some named => exact .ite (.pure _) (.error _)

theorem readsAhead_property (negated : Bool) :
    ReadsAhead f (readProperty f negated) := by
  have found := readsAhead_findProperty f negated
  refine .choose '\x7b' (fun cs y none => ?_) (fun cs cs' here => ?_)
    (fun cs d cs' other here => ?_) ((readsClosed_braced f).ahead.bind found)
    ((readsAhead_propertyLetter f).bind found)
  · simp only [readProperty, none]
    exact nofun
  · simp only [readProperty, here]
    rfl
  · simp only [readProperty, here]
    by_cases backslash : d = '\\'
    · subst backslash
      rfl
    · simp_all [readPropertyLetter, findProperty]
      rfl

/-! ## Boundaries -/

theorem readBoundaryName_eq (bound : Nat) (cs : List Char) :
    readBoundaryName f bound cs = spanGaps f isBoundaryLetter bound cs := by
  induction bound generalizing cs with
  | zero => rfl
  | succ bound ih =>
    cases cs with
    | nil => rfl
    | cons c cs => simp only [readBoundaryName, spanGaps, ih]

theorem readsAhead_boundary : ReadsAhead f (readBoundary f) := by
  intro cs a rest ok
  unfold readBoundary at ok ⊢
  split at ok
  · next inside =>
    simp only [List.cons_append]
    split at ok
    · cases ok
    · next c rest' here =>
      have suffix : c :: rest' <:+ '\x7b' :: inside :=
        (here ▸ f.dropGap_suffix inside).trans (List.suffix_cons _ _)
      have gap (ds : List Char) : f.dropGap (inside ++ ds)
          = c :: (rest' ++ ds) := by
        rw [f.dropGap_append (by rw [here]; exact List.cons_ne_nil c rest')
          ds, here]
        rfl
      simp only [gap]
      split at ok
      · next letter =>
        have within := readsWithin_spanGaps f isBoundaryLetter
        simp only [← readBoundaryName_eq] at within
        simp only [if_pos letter]
        generalize named : readBoundaryName f (rest'.length + 2) (c :: rest')
          = read at ok
        obtain ⟨name, behind⟩ := read
        obtain ⟨suffix', same⟩ :=
          @within (c :: rest') _ _ (congrArg Except.ok named)
        simp only at ok
        split at ok
        · next behind' _ _ _ found =>
          cases ok
          refine ⟨(List.suffix_cons _ _).trans (suffix'.trans suffix),
            .inl fun ds _ => ?_⟩
          have more := Except.ok.inj (same (List.cons_ne_nil _ _) ds)
          rw [List.cons_append, List.length_cons] at more
          rw [more]
          simp only [List.cons_append, found]
        · cases ok
      · next other =>
        cases ok
        exact ⟨List.suffix_rfl, .inl fun ds _ => by rw [if_neg other]; rfl⟩
  · next plain =>
    cases ok
    refine ⟨List.suffix_rfl, .inl fun ds cond => ?_⟩
    -- a brace behind the boundary would be one that was there before or one
    -- that may not follow
    split
    · next inside same =>
      cases cs with
      | nil =>
        rw [List.nil_append] at same
        subst same
        exact absurd rfl (cond.resolve_left fun left => left rfl).2.1
      | cons c rest =>
        obtain ⟨rfl, -⟩ := List.cons.inj same
        exact absurd rfl (plain rest)
    · rfl

/-! ## All escapes -/

theorem readsAhead_escape : ReadsAhead f (readEscape f) := by
  refine .of_cons nofun fun c => ?_
  simp only [readEscape]
  refine .ite (.error _) (.ite (readsAhead_hex f (by decide))
    (.ite (readsAhead_hex f (by decide)) (.ite (readsAhead_hex f (by decide))
      (.ite (readsAhead_property f false) (.ite (readsAhead_property f true)
      (.ite ?_ ?_))))))
  · exact (readsAhead_boundary f).bind fun a => .pure (Atom.anchor a)
  · split
    · exact .pure _
    · exact .pure _
    · exact .pure _
    · exact .ite (.pure _) (.error _)

end Escapes

end Lexigram.Pattern
