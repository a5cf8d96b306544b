import Lexigram.Proofs.Pattern.Classes

/-!
How far the reader of patterns looks ahead: an element is read the same whatever
follows, if something of the text is left or if what follows cannot be taken for
a part of it (`readElementAt_append`).
-/

namespace Lexigram.Pattern

open Text

section Elements

variable (f : Flags)

/-! ## The bounds of a repetition -/

/-- Whether a character is a digit. -/
def isDecimal (c : Char) : Bool :=
  '0' ≤ c ∧ c ≤ '9'

/-- The digits of a number in reverse. -/
def reversedDigits (cs : List Char) : List Nat :=
  (cs.map fun c => c.toNat - 48).reverse

theorem readDigits_eq (bound : Nat) (digits : List Nat) (cs : List Char) :
    readDigits f bound digits cs =
      (reversedDigits (spanGaps f isDecimal bound cs).1 ++ digits,
        (spanGaps f isDecimal bound cs).2) := by
  induction bound generalizing digits cs with
  | zero => rfl
  | succ bound ih =>
    cases cs with
    | nil => rfl
    | cons c cs =>
      by_cases digit : '0' ≤ c ∧ c ≤ '9'
        <;> simp [readDigits, spanGaps, isDecimal, reversedDigits, ih, digit]

theorem readsWithin_count : ReadsWithin (readCount f) := by
  have blanks := readsWithin_dropWhile isBlank
  have whole := blanks.bind fun _ =>
      (readsWithin_spanGaps f isDecimal).bind fun kept =>
    let digits := reversedDigits kept ++ []
    let n := digits.foldr (fun d n => 10 * n + d) 0
    .ite (p := digits.isEmpty = true)
      (blanks.bind fun _ => (ReadsClosed.pure (none : Option Nat)).within)
      (.ite (p := n < 0x100000000)
        (blanks.bind fun _ => (ReadsClosed.pure (some n)).within)
        (ReadsClosed.error .badCount).within)
  refine Eq.subst (motive := ReadsWithin) (funext fun cs => ?_) whole
  simp only [readCount, readDigits_eq]
  rfl

/-- The bounds of a repetition as one element. -/
def readBoundPair : ElementReader (Nat × Option Nat) := fun cs =>
  (readBounds f cs).map fun (least, most, rest) => ((least, most), rest)

/-- The brace that closes the bounds of a repetition, behind the upper one. -/
def readUpperEnd (n : Nat) (most : Option Nat) :
    ElementReader (Nat × Option Nat)
  | '\x7d' :: cs =>
    match most with
    | some m => if n ≤ m then .ok ((n, some m), cs) else .error .badCount
    | none => .error .badCount
  | _ => .error .badCount

/-- What stands behind the comma of the bounds of a repetition. -/
def readUpper (n : Nat) : ElementReader (Nat × Option Nat)
  | '\x7d' :: cs => .ok ((n, none), cs)
  | cs => readCount f cs >>= fun most => readUpperEnd n most.1 most.2

/-- What stands behind the lower bound of a repetition. -/
def readBehindLower (least : Option Nat) : ElementReader (Nat × Option Nat)
  | '\x7d' :: cs =>
    match least with
    | some n => .ok ((n, some n), cs)
    | none => .error .badCount
  | ',' :: cs =>
    match least with
    | some n => readUpper f n (f.dropGap cs)
    | none => .error .badCount
  | _ => .error .badCount

theorem readUpper_eq (n : Nat) (cs : List Char) :
    Except.map (fun (least, most, rest) => ((least, most), rest)) (match cs with
      | '\x7d' :: rest => .ok (n, none, rest)
      | rest => do
        let (most, rest) ← readCount f rest
        match most, rest with
        | some m, '\x7d' :: rest =>
          if n ≤ m then return (n, some m, rest) else .error .badCount
        | _, _ => .error .badCount) = readUpper f n cs := by
  unfold readUpper
  split
  · rfl
  · cases readCount f cs with
    | error e => rfl
    | ok read =>
      obtain ⟨most, rest⟩ := read
      simp only [bind, Except.bind]
      unfold readUpperEnd
      cases most with
      | none =>
        simp only
        split <;> rfl
      | some m =>
        split <;> simp_all
        · split <;> rfl
        · rfl

theorem readBoundPair_eq (cs : List Char) :
    readBoundPair f cs = readCount f (f.dropGap cs) >>= fun least =>
      readBehindLower f least.1 least.2 := by
  unfold readBoundPair readBounds
  cases readCount f (f.dropGap cs) with
  | error e => rfl
  | ok read =>
    obtain ⟨least, rest⟩ := read
    simp only [bind, Except.bind]
    unfold readBehindLower
    cases least with
    | none =>
      simp only
      split <;> rfl
    | some n =>
      split <;> simp_all
      · rfl
      · exact readUpper_eq f _ _
      · rfl

theorem readsClosed_upperEnd (n : Nat) (most : Option Nat) :
    ReadsClosed (readUpperEnd n most) := by
  refine .of_cons nofun fun c => ?_
  by_cases close : c = '\x7d'
  · subst close
    cases most with
    | none => exact .error _
    | some m => exact .ite (.pure _) (.error _)
  · have other (cs : List Char) : readUpperEnd n most (c :: cs)
      = .error .badCount := by simp [readUpperEnd, close]
    simp only [other]
    exact .error _

theorem readsClosed_upper (n : Nat) : ReadsClosed (readUpper f n) :=
  .choose '\x7d' nofun (fun _ => rfl)
    (fun d cs other => by simp [readUpper, other]) (.pure (n, none))
    ((readsWithin_count f).bind_closed (fun most => readsClosed_upperEnd n most)
      fun _ _ => nofun)

theorem readsClosed_behindLower (least : Option Nat) :
    ReadsClosed (readBehindLower f least) := by
  refine .of_cons nofun fun c => ?_
  by_cases close : c = '\x7d'
  · subst close
    cases least with
    | none => exact .error _
    | some n => exact .pure _
  by_cases comma : c = ','
  · subst comma
    cases least with
    | none => exact .error _
    | some n =>
      exact (readsWithin_gap f).bind_closed (fun _ => readsClosed_upper f n)
        fun _ _ => nofun
  · have other (cs : List Char) : readBehindLower f least (c :: cs)
        = .error .badCount := by
      simp [readBehindLower, close, comma]
    simp only [other]
    exact .error _

theorem readsClosed_boundPair : ReadsClosed (readBoundPair f) := by
  rw [funext (readBoundPair_eq f)]
  exact ((readsWithin_gap f).bind fun _ => readsWithin_count f).bind_closed
    (fun least => readsClosed_behindLower f least) fun _ _ => nofun

/-! ## The start of a group -/

theorem readsClosed_groupName : ReadsClosed readGroupName := by
  intro cs name rest ok
  unfold readGroupName at ok ⊢
  dsimp only at ok ⊢
  split at ok
  · next first others rest' named here =>
    have left : cs.dropWhile (· != '>') ≠ [] := by
      rw [here]
      exact List.cons_ne_nil _ _
    have suffix : rest' <:+ cs :=
      (List.suffix_cons '>' rest').trans (here ▸ List.dropWhile_suffix _)
    split at ok
    · next valid =>
      cases ok
      refine ⟨suffix, fun ds => ?_⟩
      simp only [takeWhile_append_of_ne_nil left, dropWhile_append_of_ne_nil
        left, named, here, List.cons_append, valid, if_true]
    · cases ok
  · cases ok

variable {f} in
theorem readsClosed_flags (seen : List Char) (value : Bool) :
    ReadsClosed (f.read seen value) := by
  intro cs g rest ok
  induction cs generalizing f seen value with
  | nil => cases ok
  | cons c cs ih =>
    simp only [Flags.read, List.cons_append] at ok ⊢
    by_cases closing : c = ':' ∨ c = ')'
    · simp only [closing, if_true] at ok ⊢
      split at ok
      · cases ok
      · next other =>
        cases ok
        exact ⟨List.suffix_rfl, fun ds => by rw [if_neg other]; rfl⟩
    simp only [closing, if_false] at ok ⊢
    split at ok
    · cases ok
    · next fresh =>
      rw [Bool.not_eq_true] at fresh
      simp only [fresh, Bool.false_eq_true, if_false]
      by_cases hyphen : c = '-'
      · simp only [hyphen, if_true] at ok ⊢
        obtain ⟨suffix, same⟩ := ih _ _ ok
        exact ⟨suffix.trans (List.suffix_cons _ cs), same⟩
      · simp only [hyphen, if_false] at ok ⊢
        cases set : f.set? value c with
        | none => rw [set] at ok; cases ok
        | some g =>
          rw [set] at ok
          obtain ⟨suffix, same⟩ := ih _ _ ok
          exact ⟨suffix.trans (List.suffix_cons _ cs), same⟩

theorem Flags.read_ne_nil {f g : Flags} {seen : List Char} {value : Bool}
    {cs : List Char} :
    f.read seen value cs ≠ .ok (g, []) := by
  intro ok
  induction cs generalizing f seen value with
  | nil => cases ok
  | cons c cs ih =>
    simp only [Flags.read] at ok
    split at ok
    · split at ok <;> cases ok
    · split at ok
      · cases ok
      · split at ok
        · exact ih ok
        · split at ok
          · exact ih ok
          · cases ok

/-- The character behind flags decides whether a group starts with them or they
hold for the rest of the one around. -/
def endFlags (p : Progress) (flags : Flags) : ElementReader Progress
  | [] => .error .badFlags
  | c :: cs =>
    if c = ':' then .ok (p.openGroup none flags, cs)
    else .ok ({ p with
      flags, branches :=
        { p.branches with items := none :: p.branches.items } }, cs)

/-- Flags at the start of a group. -/
def readFlagGroup (p : Progress) : ElementReader Progress := fun cs =>
  p.flags.read [] true cs >>= fun flags => endFlags p flags.1 flags.2

/-- The start of a group behind its question mark. -/
def readMark (p : Progress) : ElementReader Progress
  | '=' :: _ | '!' :: _ | '<' :: '=' :: _ | '<' :: '!' :: _ =>
    .error .lookAround
  | 'P' :: '<' :: cs => readNamedGroup p cs
  | '<' :: cs => readNamedGroup p cs
  | ')' :: _ => .error .missingOperand
  | cs => readFlagGroup p cs

/-- The start of a group behind its parenthesis and the gap there. -/
def readOpening (p : Progress) : ElementReader Progress
  | '?' :: cs => readMark p cs
  | cs => .ok (p.openCapture, cs)

theorem readFlagGroup_eq (p : Progress) (cs : List Char) :
    readFlagGroup p cs = (do
    let (flags, rest) ← p.flags.read [] true cs
    match rest with
    | ':' :: rest => return (p.openGroup none flags, rest)
    | _ =>
      return ({ p with
        flags, branches :=
          { p.branches with items := none :: p.branches.items } },
        rest.drop 1)) := by
  unfold readFlagGroup
  cases read : p.flags.read [] true cs with
  | error e => rfl
  | ok flags =>
    obtain ⟨flags, rest⟩ := flags
    cases rest with
    | nil => exact absurd read Flags.read_ne_nil
    | cons c rest =>
      by_cases colon : c = ':' <;> simp [endFlags, colon, bind, Except.bind,
        pure, Except.pure]

theorem readGroup_eq (p : Progress) (cs : List Char) :
    readGroup p cs = readOpening p (p.flags.dropGap cs) := by
  unfold readGroup readOpening readMark
  generalize p.flags.dropGap cs = cs
  split
  -- what does not fit before a name, before flags and before a group that
  -- captures has to be ruled out
  case h_6 | h_9 => simp only
  case h_8 =>
    simp only
    exact (readFlagGroup_eq p _).symm
  all_goals rfl

theorem readsClosed_namedGroup (p : Progress) :
    ReadsClosed (readNamedGroup p) := by
  have named := readsClosed_groupName.bind fun name =>
    ReadsClosed.ite (p := p.names.contains name = true)
      (.error .duplicateGroupName)
      (.pure ({ p.openCapture with names := name :: p.names } : Progress))
  exact named

theorem readsClosed_flagGroup (p : Progress) : ReadsClosed (readFlagGroup p) :=
  (readsClosed_flags [] true).bind fun _ =>
    .of_cons nofun fun _ => .ite (.pure _) (.pure _)

variable {p : Progress} in
theorem readMark_of_flags {c : Char} (plain : c ∉ ['=', '!', '<', 'P', ')'])
    (cs : List Char) :
    readMark p (c :: cs) = readFlagGroup p (c :: cs) := by
  simp only [List.mem_cons, List.not_mem_nil, or_false, not_or] at plain
  obtain ⟨equals, bang, angle, name, close⟩ := plain
  unfold readMark
  split <;> simp_all

variable {p : Progress} in
theorem readMark_angle {c : Char} (equals : c ≠ '=') (bang : c ≠ '!')
    (cs : List Char) :
    readMark p ('<' :: c :: cs) = readNamedGroup p (c :: cs) := by
  unfold readMark
  split <;> simp_all

variable {p : Progress} in
theorem readMark_letter {c : Char} (other : c ≠ '<') (cs : List Char) :
    readMark p ('P' :: c :: cs) = .error .badFlags := by
  have plain : readMark p ('P' :: c :: cs)
      = readFlagGroup p ('P' :: c :: cs) := by
    unfold readMark
    split <;> simp_all
  rw [plain]
  rfl

theorem readsClosed_mark (p : Progress) : ReadsClosed (readMark p) := by
  intro cs p' rest ok
  cases cs with
  | nil => cases ok
  | cons c cs =>
    by_cases plain : c ∉ ['=', '!', '<', 'P', ')']
    · simp only [List.cons_append, readMark_of_flags plain] at ok ⊢
      exact readsClosed_flagGroup p ok
    have named {cs'} (suffix : cs' <:+ cs)
        (ok : readNamedGroup p cs' = .ok (p', rest)) :
        rest <:+ c :: cs ∧ ∀ ds, readNamedGroup p (cs' ++ ds)
          = .ok (p', rest ++ ds) := by
      obtain ⟨suffix', same⟩ := readsClosed_namedGroup p ok
      exact ⟨(suffix'.trans suffix).trans (List.suffix_cons c cs), same⟩
    simp only [List.mem_cons, List.not_mem_nil, or_false, Decidable.not_not]
      at plain
    rcases plain with rfl | rfl | rfl | rfl | rfl
    · cases ok
    · cases ok
    · cases cs with
      | nil => cases ok
      | cons d cs =>
        by_cases equals : d = '='
        · subst equals
          cases ok
        by_cases bang : d = '!'
        · subst bang
          cases ok
        simp only [List.cons_append, readMark_angle equals bang] at ok ⊢
        exact named List.suffix_rfl ok
    · cases cs with
      | nil => cases ok
      | cons d cs =>
        by_cases angle : d = '<'
        · subst angle
          exact named (List.suffix_cons _ _) ok
        · rw [readMark_letter angle] at ok
          cases ok
    · cases ok

/-! ## Elements -/

/-- How far a reader of elements looks ahead: the flags that hold behind the
element say what it could take for a part of it. An element that ends in a
comment does not add to the names. -/
def ReadsElement (names : List (List Char))
    (read : ElementReader Progress) : Prop :=
  ∀ ⦃cs p rest⦄, read cs = .ok (p, rest) → rest <:+ cs ∧
    ((∀ ds, rest ≠ [] ∨ p.flags.Stops ds →
      read (cs ++ ds) = .ok (p, rest ++ ds)) ∨
      p.flags.verbose = true ∧ p.names = names ∧ rest = [] ∧
        ∀ ds, p.flags.Stops ds → '\n' ∉ ds → read (cs ++ ds) = .ok (p, []))

variable {f} {names : List (List Char)} {read : ElementReader Progress}

theorem ReadsClosed.element (h : ReadsClosed read) :
    ReadsElement names read := fun _ _ _ ok =>
  ⟨(h ok).1, .inl fun ds _ => (h ok).2 ds⟩

/-- What has been read becomes a step of the reader that changes neither flags
nor names. -/
theorem ReadsAhead.element {α : Type} {read : ElementReader α}
    {g : α → Except PatternFault Progress} (h : ReadsAhead f read)
    (same : ∀ x p, g x = .ok p → p.flags = f ∧ p.names = names) :
    ReadsElement names fun cs => (do
      let (x, rest) ← read cs
      return (← g x, rest) : Except PatternFault (Progress × List Char)) := by
  have stepped (x : α) : ReadsAhead f
      fun rest => (do return (← g x, rest)) := by
    cases g x with
    | error e => exact .error e
    | ok p => exact .pure p
  intro cs p rest ok
  obtain ⟨⟨x, middle⟩, -, there⟩ := bind_ok_iff.mp ok
  obtain ⟨p', step, ended⟩ := bind_ok_iff.mp there
  cases ended
  obtain ⟨rfl, kept⟩ := same x p step
  obtain ⟨suffix, kinds⟩ := h.bind stepped ok
  exact ⟨suffix, kinds.imp_right fun ⟨verbose, ended⟩ => ⟨verbose, kept, ended⟩⟩

theorem readsAhead_lazy : ReadsAhead f fun cs => .ok (readLazy cs) := by
  intro cs lazy rest ok
  replace ok := Except.ok.inj ok
  unfold readLazy at ok ⊢
  split at ok
  · next rest' =>
    cases ok
    exact ⟨List.suffix_cons _ _, .inl fun ds _ => rfl⟩
  · next plain =>
    cases ok
    refine ⟨List.suffix_rfl, .inl fun ds cond => congrArg _ ?_⟩
    split
    · next rest mark =>
      cases cs with
      | nil =>
        rw [List.nil_append] at mark
        subst mark
        exact absurd rfl (cond.resolve_left fun left => left rfl).1
      | cons c cs =>
        obtain ⟨rfl, -⟩ := List.cons.inj mark
        exact absurd rfl (plain cs)
    · rfl

variable (p : Progress)

theorem readsElement_group : ReadsElement p.names (readGroup p) := by
  intro cs p' rest ok
  rw [readGroup_eq] at ok
  simp only [readGroup_eq]
  obtain ⟨suffix, kinds⟩ := @readsAhead_gap p.flags cs () _ rfl
  cases here : p.flags.dropGap cs with
  | nil =>
    rw [here] at ok kinds
    cases ok
    -- behind a parenthesis at the end there may be a comment, which then takes
    -- what follows
    have capture {ds} (stops : p.flags.Stops ds) :
        readOpening p ds = .ok (p.openCapture, ds) := by
      cases ds with
      | nil => rfl
      | cons d ds => simp [readOpening, stops.1]
    refine ⟨List.nil_suffix, kinds.imp (fun same ds cond => ?_)
      fun ⟨verbose, _, open_⟩ => ⟨verbose, rfl, rfl, ?_⟩⟩
    · have stops := cond.resolve_left fun left => left rfl
      have gap : p.flags.dropGap (cs ++ ds) = ds :=
        congrArg Prod.snd (Except.ok.inj (same ds (.inr stops)))
      rw [gap, capture stops, List.nil_append]
    · intro ds stops line
      have gap : p.flags.dropGap (cs ++ ds) = [] :=
        congrArg Prod.snd (Except.ok.inj (open_ ds stops line))
      rw [gap]
      rfl
  | cons c behind =>
    have gap (ds : List Char) : p.flags.dropGap (cs ++ ds)
        = c :: (behind ++ ds) := by
      rw [p.flags.dropGap_append (by rw [here]; exact List.cons_ne_nil _ _)
        ds, here]
      rfl
    rw [here] at ok suffix
    simp only [gap]
    by_cases mark : c = '?'
    · subst mark
      obtain ⟨suffix', same⟩ := readsClosed_mark p ok
      exact ⟨suffix'.trans ((List.suffix_cons _ _).trans suffix),
        .inl fun ds _ => same ds⟩
    · have capture (cs : List Char) : readOpening p (c :: cs)
          = .ok (p.openCapture, c :: cs) := by
        simp [readOpening, mark]
      rw [capture] at ok
      cases ok
      exact ⟨suffix, .inl fun ds _ => capture _⟩

theorem repeatLast_keeps {p p' : Progress} {least : Nat} {most : Option Nat}
    {lazy : Bool} (ok : p.repeatLast least most lazy = .ok p') :
    p'.flags = p.flags ∧ p'.names = p.names := by
  unfold Progress.repeatLast at ok
  split at ok
  · cases ok
    exact ⟨rfl, rfl⟩
  · cases ok

theorem readsElement_repeated (least : Nat) (most : Option Nat) :
    ReadsElement p.names fun cs => (do
      let (lazy, rest) := readLazy cs
      return (← p.repeatLast least most lazy, rest) :
          Except PatternFault (Progress × List Char)) :=
  readsAhead_lazy.element fun _ _ => repeatLast_keeps

theorem readsElement_counted : ReadsElement p.names fun cs => (do
      let (least, most, rest) ← readBounds p.flags cs
      let (lazy, rest) := readLazy (p.flags.dropGap rest)
      return (← p.repeatLast least most lazy, rest) :
          Except PatternFault (Progress × List Char)) := by
  have bounds := (readsClosed_boundPair p.flags).ahead.bind fun bounds =>
    (readsAhead_lazy (f := p.flags)).behind_gap.bind fun lazy =>
      .pure (bounds, lazy)
  have whole := bounds.element
    (g := fun (bounds, lazy) => p.repeatLast bounds.1 bounds.2 lazy)
    fun _ _ => repeatLast_keeps
  refine Eq.subst (motive := ReadsElement p.names) (funext fun cs => ?_) whole
  unfold readBoundPair
  cases readBounds p.flags cs <;> rfl

/-- How far an element looks ahead. -/
theorem readsElement (p : Progress) (c : Char) :
    ReadsElement p.names (readElementAt p c) := by
  unfold readElementAt
  dsimp only
  split
  · exact readsElement_group p
  · cases p.closeGroup with
    | error e => exact (ReadsClosed.error e).element
    | ok p' => exact (ReadsClosed.pure p').element
  · exact (ReadsClosed.pure _).element
  · exact (readsClosed_class p.flags).ahead.element
      (g := fun set =>
        .ok (p.push (if p.flags.unicode then .char set else .byte set)))
      fun _ _ ok => by
        cases ok
        exact ⟨rfl, rfl⟩
  · exact readsElement_repeated p 0 (some 1)
  · exact readsElement_repeated p 0 none
  · exact readsElement_repeated p 1 none
  · exact readsElement_counted p
  · exact (readsAhead_escape p.flags).element
        (g := fun a => .ok (p.push (a.toExpr p.flags))) fun _ _ ok => by
      cases ok
      exact ⟨rfl, rfl⟩
  all_goals exact (ReadsClosed.pure _).element

end Elements

end Lexigram.Pattern
