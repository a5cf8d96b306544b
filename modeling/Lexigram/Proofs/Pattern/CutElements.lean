import Lexigram.Proofs.Pattern.Cutting

/-!
Elements without what stands behind. A class has its bracket in front of
`closing` and a group its start, so both are read as they are by themselves
(`readsCut_class`, `readsCut_group`); so is every other element, but for a word
boundary whose brace nothing follows (`readElementAt_cut`).
-/

namespace Lexigram.Pattern

open Text

section Classes

variable (f : Flags)

/-! ## The start of a class -/

theorem readsCut_negation : ReadsCut fun cs => .ok (negation f cs) := by
  have behind : ReadsCut fun cs => .ok (true, f.dropGap cs) :=
    (ReadsCut.pure true).behind_gap f
  refine .choose '^' ?_ (fun _ => rfl) (fun d cs other => ?_) (by decide) behind
    (.pure false)
  · rfl
  · simp [negation, other]

theorem readsCut_hyphens :
    ReadsCut fun cs => .ok (readHyphens f (cs.length + 1) cs) := by
  simp only [readHyphens_eq]
  have hyphens : ReadsCut fun cs =>
    .ok (spanGaps f (· == '-') (cs.length + 1) cs) :=
    readsCut_spanGaps f (by decide)
  exact hyphens.bind fun hyphens => .pure !hyphens.isEmpty

theorem readsCut_firstBracket : ReadsCut fun cs => .ok (firstBracket f cs) := by
  have behind : ReadsCut fun cs => .ok
    (CharSet.single ']'.toNat, f.dropGap cs) := (ReadsCut.pure _).behind_gap f
  refine .choose ']' ?_ (fun _ => rfl) (fun d cs other => ?_) (by decide) behind
    (.pure .nothing)
  · rfl
  · simp [firstBracket, other]

theorem readsCut_classStart : ReadsCut fun cs =>
    .ok (((readClassStart f cs).1, (readClassStart f cs).2.1),
        (readClassStart f cs).2.2) := by
  have whole := (readsCut_gap f).bind fun _ =>
      (readsCut_negation f).bind fun negated =>
    (readsCut_hyphens f).bind fun hyphens =>
      .ite (p := hyphens = true) (.pure (negated, CharSet.single '-'.toNat))
        ((readsCut_firstBracket f).bind fun set => .pure (negated, set))
  refine Eq.subst (motive := ReadsCut) (funext fun cs => ?_) whole
  rw [readClassStart_eq]
  simp only [readGap, bind, Except.bind]
  split <;> rfl

/-! ## Members of a class -/

variable {f} in
/-- What stands behind a hyphen, if it is not the parenthesis. -/
theorem peekBehind_closing {cs : List Char} {c : Char}
    (found : peekBehind f (cs ++ closing) = some c) (other : c ≠ ')') :
    peekBehind f cs = some c := by
  cases alone : peekBehind f cs with
  | some d =>
    rw [peekBehind_append alone] at found
    exact found
  | none =>
    -- where nothing stands behind the hyphen the parenthesis does now
    refine absurd ?_ other
    unfold peekBehind at alone found
    by_cases verbose : f.verbose = true
    · rw [if_pos verbose] at alone found
      cases behind : cs.dropWhile isBlank with
      | nil =>
        have blanks : (cs ++ closing).dropWhile isBlank = closing := by
          rw [List.dropWhile_append, behind]
          rfl
        rw [blanks] at found
        exact (Option.some.inj found).symm
      | cons d ds =>
        rw [dropWhile_append_of_ne_nil (by simp [behind]), behind] at found
        rw [behind] at alone
        by_cases hash : d = '#'
        · subst hash
          have blanks : (ds ++ closing).dropWhile isBlank = closing := by
            rw [List.dropWhile_append, List.head?_eq_none_iff.mp alone]
            rfl
          simp only [List.cons_append, blanks] at found
          exact (Option.some.inj found).symm
        · simp [hash] at alone
    · rw [if_neg verbose] at alone found
      rw [List.head?_eq_none_iff.mp alone] at found
      exact (Option.some.inj found).symm

/-- An atom is read as it is by itself, but for an anchor. -/
theorem readClassAtom_cut {c : Char} {cs rest : List Char} {a : Atom}
    (ok : readClassAtom f c (cs ++ closing) = .ok (a, rest ++ closing)) :
    readClassAtom f c cs = .ok (a, rest) ∨ ∃ b, a = .anchor b := by
  unfold readClassAtom at ok ⊢
  split at ok
  · next escape =>
    rw [if_pos escape]
    exact (readEscape_cut f ok).imp id And.left
  · next other =>
    rw [if_neg other]
    exact .inl ((ReadsCut.pure (Atom.point c.toNat false)).cut ok)

theorem readsCut_intervalBetween (first last : Atom) :
    ReadsCut (intervalBetween f first last) := by
  unfold intervalBetween
  split
  · next n rawN m rawM =>
    refine .ite ?_ (.error _)
    cases classPoint f n rawN with
    | error e => exact .error e
    | ok n =>
      cases classPoint f m rawM with
      | error e => exact .error e
      | ok m => exact .pure (CharSet.interval n m)
  · exact .error _

theorem readsCut_upperMember (first : Atom) :
    ReadsCut (readUpperMember f first) := by
  refine .of_cons nofun fun d => ⟨?_, ?_⟩
  · exact fun _ _ _ ok => ((readsAhead_classAtom f d).bind fun last =>
      readsAhead_intervalBetween f first last) ok |>.1
  · intro cs set rest ok
    obtain ⟨⟨last, middle⟩, here, there⟩ := bind_ok_iff.mp ok
    obtain ⟨kept, rfl⟩ := exists_of_closing_suffix
      ((readsCut_intervalBetween f first last).suffix there)
    rcases readClassAtom_cut f here with alone | ⟨b, rfl⟩
    · exact bind_ok_iff.mpr ⟨_, alone,
        (readsCut_intervalBetween f first last).cut there⟩
    · cases first <;> cases there

theorem readsCut_interval (first : Atom) : ReadsCut (readInterval f first) :=
  (readsCut_upperMember f first).behind_gap f

theorem readsCut_lone (first : Atom) : ReadsCut (readLone f first) := by
  cases first with
  | anchor => exact .error _
  | set s => exact (ReadsCut.pure s).behind_gap f
  | point n raw =>
    unfold readLone
    dsimp only
    cases classPoint f n raw with
    | error e => exact .error e
    | ok n => exact (ReadsCut.pure (CharSet.single n)).behind_gap f

theorem dropGap_of_readLone {first : Atom} {cs rest : List Char} {set : CharSet}
    (ok : readLone f first cs = .ok (set, rest)) : rest = f.dropGap cs := by
  cases first with
  | anchor => cases ok
  | set s => exact (congrArg Prod.snd (Except.ok.inj ok)).symm
  | point n raw =>
    obtain ⟨n, -, same⟩ := bind_ok_iff.mp ok
    exact (congrArg Prod.snd (Except.ok.inj same)).symm

theorem readBehindMember_hyphen (first : Atom) {cs behind : List Char}
    (here : f.dropGap cs = '-' :: behind) :
    readBehindMember f first cs
      = if peekBehind f behind = some ']' ∨ peekBehind f behind = some '-' then
          readLone f first cs
        else readInterval f first behind := by
  rw [readBehindMember, here]
  rfl

theorem readBehindMember_lone (first : Atom) {cs behind : List Char} {d : Char}
    (here : f.dropGap cs = d :: behind) (hyphen : d ≠ '-') :
    readBehindMember f first cs = readLone f first cs := by
  rw [readBehindMember, here]
  simp [hyphen]

/-- A member with something behind it that belongs to the class. -/
theorem readBehindMember_cut {first : Atom} {cs rest : List Char}
    {set : CharSet} (left : rest ≠ []) (ok : readBehindMember f first
      (cs ++ closing) = .ok (set, rest ++ closing)) :
    readBehindMember f first cs = .ok (set, rest) := by
  rcases f.dropGap_closing cs with same | none
  · cases here : f.dropGap cs with
    | nil =>
      rw [here, List.nil_append] at same
      rw [readBehindMember_lone f first same (by decide)] at ok
      exact absurd ((dropGap_of_readLone f
        ((readsCut_lone f first).cut ok)).trans here) left
    | cons d behind =>
      rw [here, List.cons_append] at same
      by_cases hyphen : d = '-'
      · subst hyphen
        rw [readBehindMember_hyphen f first same] at ok
        rw [readBehindMember_hyphen f first here]
        by_cases closes : peekBehind f (behind ++ closing) = some ']'
          ∨ peekBehind f (behind ++ closing) = some '-'
        · rw [if_pos closes] at ok
          rw [if_pos (closes.imp (peekBehind_closing · (by decide))
            (peekBehind_closing · (by decide)))]
          exact (readsCut_lone f first).cut ok
        · rw [if_neg closes] at ok
          rw [if_neg fun alone => closes (alone.imp
            (peekBehind_append · closing) (peekBehind_append · closing))]
          exact (readsCut_interval f first).cut ok
      · rw [readBehindMember_lone f first same hyphen] at ok
        rw [readBehindMember_lone f first here hyphen]
        exact (readsCut_lone f first).cut ok
  · rw [readBehindMember, none] at ok
    cases ok

/-- An anchor is no member of a class. -/
theorem readBehindMember_anchor (b : Anchor) (cs : List Char)
    (y : CharSet × List Char) :
    readBehindMember f (.anchor b) cs ≠ .ok y := by
  intro ok
  unfold readBehindMember at ok
  split at ok
  · cases ok
  · split at ok
    · cases ok
    · unfold readInterval readUpperMember at ok
      split at ok
      · cases ok
      · obtain ⟨last, -, there⟩ := bind_ok_iff.mp ok
        cases there
  · cases ok

theorem readClassItem_cut {c : Char}
    {cs rest : List Char} {set : CharSet} (left : rest ≠ [])
    (ok : readClassItem f c (cs ++ closing) = .ok (set, rest ++ closing)) :
    readClassItem f c cs = .ok (set, rest) := by
  rw [readClassItem_eq] at ok ⊢
  obtain ⟨⟨first, middle⟩, here, there⟩ := bind_ok_iff.mp ok
  obtain ⟨kept, rfl⟩ :=
    exists_of_closing_suffix (readsWithin_behindMember f first there).1
  rcases readClassAtom_cut f here with alone | ⟨b, rfl⟩
  · exact bind_ok_iff.mpr ⟨_, alone, readBehindMember_cut f left there⟩
  · exact absurd there (readBehindMember_anchor f b _ _)

/-! ## Whole classes -/

section Element

variable (stack : List ClassFrame) (set : CharSet)

theorem readMembers_cut {c : Char} {cs rest : List Char} {turn : ClassTurn}
    (left : rest ≠ []) (read : readMembers f stack set c (cs ++ closing)
      = .ok (turn, rest ++ closing)) :
    readMembers f stack set c cs = .ok (turn, rest) := by
  have item (cs : List Char)
      (item : (readClassItem f c (cs ++ closing) >>= fun item =>
          .ok (ClassTurn.inside stack (.union set item.1), item.2))
        = .ok (turn, rest ++ closing)) :
      (readClassItem f c cs >>= fun item =>
          .ok (.inside stack (.union set item.1), item.2))
        = .ok (turn, rest) := by
    obtain ⟨⟨member, behind⟩, here, there⟩ := bind_ok_iff.mp item
    cases there
    exact bind_ok_iff.mpr ⟨_, readClassItem_cut f left here, rfl⟩
  cases cs with
  | nil =>
    have short := (readsWithin_members f stack set c read).1.length_le
    simp only [List.nil_append, List.length_append] at short
    exact absurd (List.length_eq_zero_iff.mp (by omega)) left
  | cons d cs =>
    rw [readMembers, List.cons_append, List.head?_cons] at read
    rw [readMembers, List.head?_cons]
    cases found : SetOperator.ofChar? c with
    | none =>
      rw [found] at read
      exact item (d :: cs) read
    | some op =>
      rw [found] at read
      cases twice : some d == some c with
      | false =>
        rw [twice] at read
        exact item (d :: cs) read
      | true =>
        rw [twice] at read
        obtain ⟨rfl, left⟩ := Prod.mk.inj (Except.ok.inj read)
        have kept : cs = rest := eq_of_closing left
        rw [← kept]
        rfl

theorem readInnerClass_cut {cs rest : List Char} {turn : ClassTurn}
    (bracket : ']' ∈ cs) (read : readInnerClass f stack set (cs ++ closing)
      = .ok (turn, rest ++ closing)) :
    readInnerClass f stack set cs = .ok (turn, rest) := by
  unfold readInnerClass at read ⊢
  rw [innerNamed_append f stack bracket closing] at read
  cases here : if stack.isEmpty then none else readNamedClass? f cs with
  | some found =>
    rw [here] at read
    exact (ReadsCut.pure _).cut read
  | none =>
    rw [here] at read
    obtain ⟨rfl, left⟩ := Prod.mk.inj (Except.ok.inj read)
    have start :=
      (readsCut_classStart f).cut (congrArg Except.ok (Prod.ext rfl left))
    obtain ⟨⟨negated, start⟩, left⟩ := by
      simpa only [Prod.mk.injEq] using Except.ok.inj start
    simp only [negated, start, left]

theorem readClassEnd_rest {cs rest : List Char} {turn : ClassTurn}
    (read : readClassEnd f stack set cs = .ok (turn, rest)) : rest = cs := by
  unfold readClassEnd at read
  split at read
  · split at read <;> exact (congrArg Prod.snd (Except.ok.inj read)).symm
  · cases read

theorem readsCut_classEnd : ReadsCut (readClassEnd f stack set) := by
  unfold readClassEnd
  split
  · exact .ite (.pure _) (.pure _)
  · exact .error _

/-- An element of a class that `closing` does not end is read as it is by
itself. -/
theorem readClassElement_cut {c : Char} {cs rest : List Char} {turn : ClassTurn}
    (bracket : c = ']' ∨ ']' ∈ rest) (read : readClassElement f stack set c
      (cs ++ closing) = .ok (turn, rest ++ closing)) :
    readClassElement f stack set c cs = .ok (turn, rest) := by
  unfold readClassElement at read ⊢
  split at read
  · next opening =>
    have inside := bracket.resolve_left fun closes =>
      absurd (opening.symm.trans closes) (by decide)
    have suffix :=
      List.suffix_append_self_iff.mp (readInnerClass_suffix f stack set read)
    rw [if_pos opening]
    exact readInnerClass_cut f stack set (List.IsSuffix.mem inside suffix) read
  · next opening =>
    rw [if_neg opening]
    split at read
    · next closes =>
      rw [if_pos closes]
      exact (readsCut_classEnd f stack set).cut read
    · next closes =>
      rw [if_neg closes]
      exact readMembers_cut f stack
        set (List.ne_nil_of_mem (bracket.resolve_left closes)) read

end Element

/-- A class ends in front of `closing`, where there is no bracket. -/
theorem readClassFrom_cut {stack : List ClassFrame}
    {set s : CharSet} {cs rest : List Char}
    (ok : readClassFrom f stack set 0 (cs ++ closing) = .ok (s, rest)) :
    ∃ rest', rest = rest' ++ closing ∧
      readClassFrom f stack set 0 cs = .ok (s, rest') := by
  induction length : cs.length using Nat.strongRecOn
      generalizing stack set cs with
  | ind n ih =>
    rcases f.dropGap_closing cs with same | none
    · cases here : f.dropGap cs with
      | nil =>
        rw [readClassFrom_gap, same, here] at ok
        exact absurd (bracket_mem_of_readClassFrom f ok) (by decide)
      | cons c cs' =>
        rw [here, List.cons_append] at same
        rw [readClassFrom_element f stack set same] at ok
        rw [readClassFrom_element f stack set here]
        obtain ⟨⟨turn, middle⟩, read, there⟩ := bind_ok_iff.mp ok
        cases turn with
        | whole members =>
          obtain rfl := eq_bracket_of_whole f stack set read
          obtain rfl := readClassEnd_rest f stack set read
          cases there
          exact ⟨cs', rfl, bind_ok_iff.mpr
            ⟨_, readClassElement_cut f stack set (.inl rfl) read, rfl⟩⟩
        | inside stack' set' =>
          have bracket : ']' ∈ middle := bracket_mem_of_readClassFrom f there
          have suffix := readClassElement_suffix f stack set read
          -- the bracket that ends the class stands in front of `closing`
          rcases List.suffix_or_suffix_of_suffix suffix
            (List.suffix_append cs' closing) with behind | front
          · exact absurd (List.IsSuffix.mem bracket behind) (by decide)
          · obtain ⟨kept, rfl⟩ := front
            have bracket' : ']' ∈ kept :=
              (List.mem_append.mp bracket).resolve_right (by decide)
            have shorter := (List.suffix_append_self_iff.mp suffix).length_le
            have whole := (f.dropGap_suffix cs).length_le
            rw [here, List.length_cons] at whole
            obtain ⟨rest', rfl, alone⟩ := ih kept.length (by omega) there rfl
            exact ⟨rest', rfl, bind_ok_iff.mpr
              ⟨_, readClassElement_cut f stack set (.inr bracket') read, alone⟩⟩
    · rw [readClassFrom_gap, none] at ok
      cases ok

theorem readsCut_class : ReadsCut fun cs => readClass f ('[' :: cs) where
  suffix := fun _ _ _ ok => (readsClosed_class f ok).1
  cut := by
    intro cs s rest ok
    have whole : readClassFrom f [] .nothing 0 ('[' :: cs ++ closing)
      = .ok (s, rest ++ closing) := ok
    obtain ⟨rest', left, alone⟩ := readClassFrom_cut f whole
    rw [eq_of_closing left]
    exact alone

end Classes

/-! ## The start of a group -/

section Elements

variable (p : Progress)

theorem readsCut_groupName : ReadsCut readGroupName where
  suffix := fun _ _ _ ok => (readsClosed_groupName ok).1
  cut := by
    intro cs name rest ok
    unfold readGroupName at ok ⊢
    dsimp only at ok ⊢
    by_cases none : cs.dropWhile (· != '>') = []
    · have nothing : (cs ++ closing).dropWhile (· != '>') = [] := by
        rw [List.dropWhile_append, none]
        rfl
      rw [nothing] at ok
      split at ok
      · next same => cases same
      · cases ok
    · rw [takeWhile_append_of_ne_nil none,
        dropWhile_append_of_ne_nil none] at ok
      have close := List.head_dropWhile_not (· != '>') none
      obtain ⟨c, behind, here⟩ := List.exists_cons_of_ne_nil none
      simp only [here, List.head_cons, List.cons_append] at close ok ⊢
      obtain rfl : c = '>' := by simpa using close
      cases named : cs.takeWhile (· != '>') with
      | nil =>
        rw [named] at ok
        cases ok
      | cons first others =>
        rw [named] at ok
        simp only at ok ⊢
        split at ok
        · next valid =>
          rw [if_pos valid]
          exact (ReadsCut.pure (first :: others)).cut ok
        · cases ok

/-- Flags are read up to a character that is not of `closing`. -/
theorem Flags.read_closing {f g : Flags}
    {seen : List Char} {value : Bool} {c : Char} {cs rest : List Char}
    (ok : f.read seen value (cs ++ closing) = .ok (g, c :: (rest ++ closing))) :
    f.read seen value cs = .ok (g, c :: rest) := by
  induction cs generalizing f seen value with
  | nil =>
    have stays : f.read seen value closing
        = if seen.head? = some '-' then .error .badFlags
          else .ok (f, closing) := rfl
    rw [List.nil_append, stays] at ok
    split at ok
    · cases ok
    · have left := congrArg List.length (congrArg Prod.snd (Except.ok.inj ok))
      simp only [List.length_append, List.length_cons] at left
      omega
  | cons d cs ih =>
    simp only [Flags.read, List.cons_append] at ok ⊢
    by_cases closes : d = ':' ∨ d = ')'
    · simp only [closes, if_true] at ok ⊢
      split at ok
      · cases ok
      · next other =>
        rw [if_neg other]
        obtain ⟨rfl, left⟩ := Prod.mk.inj (Except.ok.inj ok)
        have same : d :: cs = c :: rest := eq_of_closing left
        rw [same]
    simp only [closes, if_false] at ok ⊢
    split at ok
    · cases ok
    · next fresh =>
      rw [if_neg fresh]
      by_cases hyphen : d = '-'
      · simp only [hyphen, if_true] at ok ⊢
        exact ih ok
      · simp only [hyphen, if_false] at ok ⊢
        cases set : f.set? value d with
        | none => rw [set] at ok; cases ok
        | some g =>
          rw [set] at ok
          exact ih ok

theorem readsCut_namedGroup : ReadsCut (readNamedGroup p) := by
  have named := readsCut_groupName.bind fun name =>
    ReadsCut.ite (p := p.names.contains name = true)
      (.error .duplicateGroupName)
      (.pure ({ p.openCapture with names := name :: p.names } : Progress))
  exact named

theorem exists_endFlags (flags : Flags) (c : Char) :
    ∃ p', ∀ cs, endFlags p flags (c :: cs) = .ok (p', cs) := by
  by_cases colon : c = ':'
  · exact ⟨p.openGroup none flags, fun cs => by rw [endFlags, if_pos colon]⟩
  · exact ⟨_, fun cs => by rw [endFlags, if_neg colon]⟩

theorem readsCut_flagGroup : ReadsCut (readFlagGroup p) where
  suffix := fun _ _ _ ok => (readsClosed_flagGroup p ok).1
  cut := by
    intro cs p' rest ok
    obtain ⟨⟨flags, behind⟩, here, there⟩ := bind_ok_iff.mp ok
    cases behind with
    | nil => cases there
    | cons c behind =>
      obtain ⟨p₁, ends⟩ := exists_endFlags p flags c
      obtain ⟨rfl, rfl⟩ :=
        Prod.mk.inj (Except.ok.inj ((ends behind).symm.trans there))
      exact bind_ok_iff.mpr ⟨_, Flags.read_closing here, ends rest⟩

theorem readsCut_mark : ReadsCut (readMark p) where
  suffix := fun _ _ _ ok => (readsClosed_mark p ok).1
  cut := by
    intro cs p' rest ok
    cases cs with
    | nil => cases ok
    | cons c cs =>
      by_cases plain : c ∉ ['=', '!', '<', 'P', ')']
      · rw [List.cons_append, readMark_of_flags plain] at ok
        rw [readMark_of_flags plain]
        exact (readsCut_flagGroup p).cut ok
      simp only [List.mem_cons, List.not_mem_nil, or_false, Decidable.not_not]
        at plain
      rcases plain with rfl | rfl | rfl | rfl | rfl
      · cases ok
      · cases ok
      · cases cs with
        | nil => cases ok
        | cons d cs =>
          by_cases equals : d = '='
          · subst equals
            cases ok
          by_cases bang : d = '!'
          · subst bang
            cases ok
          rw [List.cons_append, List.cons_append,
            readMark_angle equals bang] at ok
          rw [readMark_angle equals bang]
          exact (readsCut_namedGroup p).cut ok
      · cases cs with
        | nil => cases ok
        | cons d cs =>
          by_cases angle : d = '<'
          · subst angle
            exact (readsCut_namedGroup p).cut ok
          · rw [List.cons_append, List.cons_append, readMark_letter angle] at ok
            cases ok
      · cases ok

theorem readsCut_group : ReadsCut (readGroup p) := by
  have opening : ReadsCut (readOpening p) := by
    refine .choose '?' ?_ (fun _ => rfl) (fun d cs other => ?_) (by decide)
      (readsCut_mark p) (.pure p.openCapture)
    · rfl
    · simp [readOpening, other]
  rw [funext (readGroup_eq p)]
  exact opening.behind_gap p.flags

/-! ## Elements -/

/-- What has been read becomes a step of the reader. -/
theorem ReadsCut.step {α : Type} {read : ElementReader α} (h : ReadsCut read)
    (g : α → Except PatternFault Progress) :
    ReadsCut fun cs => (do
      let (x, rest) ← read cs
      return (← g x, rest) : Except PatternFault (Progress × List Char)) := by
  have stepped (x : α) : ReadsCut fun rest => (do return (← g x, rest)) := by
    cases g x with
    | error e => exact .error e
    | ok p => exact .pure p
  exact h.bind stepped

theorem readsCut_lazy : ReadsCut fun cs => .ok (readLazy cs) := by
  refine .choose '?' ?_ (fun _ => rfl) (fun d cs other => ?_) (by decide)
    (.pure true) (.pure false)
  · rfl
  · simp [readLazy, other]

theorem readsCut_counted : ReadsCut fun cs => (do
      let (least, most, rest) ← readBounds p.flags cs
      let (lazy, rest) := readLazy (p.flags.dropGap rest)
      return (← p.repeatLast least most lazy, rest) :
          Except PatternFault (Progress × List Char)) := by
  have bounds := (readsCut_boundPair p.flags).bind fun bounds =>
    (readsCut_lazy.behind_gap p.flags).bind fun lazy => .pure (bounds, lazy)
  have whole :=
    bounds.step fun (bounds, lazy) => p.repeatLast bounds.1 bounds.2 lazy
  refine Eq.subst (motive := ReadsCut) (funext fun cs => ?_) whole
  unfold readBoundPair
  cases readBounds p.flags cs <;> rfl

/-- An element that is no escape is read as it is by itself. -/
theorem readsCut_element {c : Char} (other : c ≠ '\\') :
    ReadsCut (readElementAt p c) := by
  unfold readElementAt
  dsimp only
  split
  · exact readsCut_group p
  · cases p.closeGroup with
    | error e => exact .error e
    | ok p' => exact .pure p'
  · exact .pure _
  · exact (readsCut_class p.flags).step fun set =>
      .ok (p.push (if p.flags.unicode then .char set else .byte set))
  · exact readsCut_lazy.step fun lazy => p.repeatLast 0 (some 1) lazy
  · exact readsCut_lazy.step fun lazy => p.repeatLast 0 none lazy
  · exact readsCut_lazy.step fun lazy => p.repeatLast 1 none lazy
  · exact readsCut_counted p
  · exact absurd rfl other
  all_goals exact .pure _

/-- An element is read as it is by itself, unless a repetition would have to go
on with `closing`. -/
theorem readElementAt_cut {c : Char} {cs rest : List Char} {p' : Progress}
    (ok : readElementAt p c (cs ++ closing) = .ok (p', rest ++ closing)) :
    readElementAt p c cs = .ok (p', rest)
      ∨ p'.flags = p.flags ∧ Dangles p.flags rest := by
  by_cases escape : c = '\\'
  · subst escape
    obtain ⟨⟨a, rest'⟩, here, there⟩ := bind_ok_iff.mp ok
    cases there
    rcases readEscape_cut p.flags here with alone | ⟨-, dangles⟩
    · exact .inl (bind_ok_iff.mpr ⟨_, alone, rfl⟩)
    · exact .inr ⟨rfl, dangles⟩
  · exact .inl ((readsCut_element p escape).cut ok)

end Elements

end Lexigram.Pattern
