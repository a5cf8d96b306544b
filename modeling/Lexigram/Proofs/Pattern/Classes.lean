import Mathlib.Data.List.TakeWhile
import Lexigram.Proofs.Pattern.Escapes

/-!
Classes are read to the bracket that closes them: what stands behind it does not
matter (`readsClosed_class`). Every part of a class may look ahead, but only as
far as the bracket.
-/

namespace Lexigram.Pattern

open Text

section Classes

variable (f : Flags)

/-! ## The start of a class -/

theorem readHyphens_eq (bound : Nat) (cs : List Char) :
    readHyphens f bound cs =
      (!(spanGaps f (· == '-') bound cs).1.isEmpty,
        (spanGaps f (· == '-') bound cs).2) := by
  induction bound generalizing cs with
  | zero => rfl
  | succ bound ih =>
    cases cs with
    | nil => rfl
    | cons c cs =>
      by_cases hyphen : c = '-' <;> simp [readHyphens, spanGaps, ih, hyphen]

theorem readsWithin_gap : ReadsWithin (readGap f) :=
  (readsAhead_gap f).within

theorem readsWithin_hyphens :
    ReadsWithin fun cs => .ok (readHyphens f (cs.length + 1) cs) := by
  simp only [readHyphens_eq]
  exact (readsWithin_spanGaps f (· == '-')).bind fun hyphens =>
    (ReadsClosed.pure !hyphens.isEmpty).within

/-- The circumflex that may open a class, and what is left behind it. -/
def negation (cs : List Char) : Bool × List Char :=
  match cs with
  | '^' :: cs => (true, f.dropGap cs)
  | _ => (false, cs)

/-- The bracket that belongs to a class because nothing else does yet, as a set,
and what is left behind it. -/
def firstBracket (cs : List Char) : CharSet × List Char :=
  match cs with
  | ']' :: cs => (.single ']'.toNat, f.dropGap cs)
  | _ => (.nothing, cs)

theorem readsWithin_negation : ReadsWithin fun cs => .ok (negation f cs) :=
  .choose '^' (fun _ _ ok => by cases ok; rfl) (fun _ => rfl)
    (fun d cs other => by simp [negation, other]) ((readsWithin_gap f).bind
      fun _ => (ReadsClosed.pure true).within) (ReadsClosed.pure false).within

theorem readsWithin_firstBracket :
    ReadsWithin fun cs => .ok (firstBracket f cs) :=
  .choose ']' (fun _ _ ok => by cases ok; rfl)
    (fun _ => rfl) (fun d cs other => by simp [firstBracket, other])
    ((readsWithin_gap f).bind fun _ => (ReadsClosed.pure _).within)
    (ReadsClosed.pure CharSet.nothing).within

/-- The start of a class in parts. -/
theorem readClassStart_eq (cs : List Char) : readClassStart f cs =
    (let (negated, cs) := negation f (f.dropGap cs)
     let (hyphens, cs) := readHyphens f (cs.length + 1) cs
     if hyphens then (negated, .single '-'.toNat, cs)
     else (negated, firstBracket f cs)) := by
  have behind (start : Bool × List Char) :
      (let (negated, cs) := start
       let (hyphens, cs) := readHyphens f (cs.length + 1) cs
       if hyphens then (negated, CharSet.single '-'.toNat, cs)
       else match cs with
         | ']' :: cs => (negated, .single ']'.toNat, f.dropGap cs)
         | _ => (negated, .nothing, cs))
        = (let (negated, cs) := start
           let (hyphens, cs) := readHyphens f (cs.length + 1) cs
           if hyphens then (negated, .single '-'.toNat, cs)
           else (negated, firstBracket f cs)) := by
    dsimp only
    split
    · rfl
    · unfold firstBracket
      split <;> rfl
  exact behind (negation f (f.dropGap cs))

theorem readsWithin_classStart : ReadsWithin fun cs =>
    .ok (((readClassStart f cs).1, (readClassStart f cs).2.1),
        (readClassStart f cs).2.2) := by
  have whole := (readsWithin_gap f).bind fun _ =>
      (readsWithin_negation f).bind fun negated =>
    (readsWithin_hyphens f).bind fun hyphens =>
      .ite (p := hyphens = true) (ReadsClosed.pure (negated,
        CharSet.single '-'.toNat)).within ((readsWithin_firstBracket f).bind
        fun set => (ReadsClosed.pure (negated, set)).within)
  refine Eq.subst (motive := ReadsWithin) (funext fun cs => ?_) whole
  rw [readClassStart_eq]
  simp only [readGap, bind, Except.bind]
  split <;> rfl

/-! ## Members of a class -/

theorem readsAhead_classAtom (c : Char) : ReadsAhead f (readClassAtom f c) :=
  .ite (readsAhead_escape f) (.pure _)

variable {f} in
/-- What stands behind a hyphen decides, if there is anything, whatever
follows. -/
theorem peekBehind_append {cs : List Char} {c : Char}
    (found : peekBehind f cs = some c) (ds : List Char) :
    peekBehind f (cs ++ ds) = some c := by
  unfold peekBehind at found ⊢
  split at found
  · next verbose =>
    have left : cs.dropWhile isBlank ≠ [] := by
      intro none
      rw [none] at found
      cases found
    rw [if_pos verbose, dropWhile_append_of_ne_nil left]
    split at found
    · next rest hash =>
      have left : rest.dropWhile isBlank ≠ [] := by
        intro none
        rw [none] at found
        cases found
      simp only [hash, List.cons_append, dropWhile_append_of_ne_nil left,
        List.head?_append, found, Option.some_or]
    · next other =>
      obtain ⟨rest, behind⟩ := List.head?_eq_some_iff.mp found
      rw [behind, List.cons_append]
      split
      · next same =>
        obtain ⟨rfl, -⟩ := List.cons.inj same
        exact absurd behind (other rest)
      · rfl
  · next plain =>
    rw [if_neg plain, List.head?_append, found, Option.some_or]

theorem spanTrivia_of_forall {inComment : Bool} {cs : List Char}
    (all : ∀ c ∈ cs, isBlank c = true ∨ c = '#') :
    (spanTrivia inComment cs).2 = [] := by
  induction cs generalizing inComment with
  | nil => rfl
  | cons c cs ih =>
    obtain ⟨here, others⟩ := List.forall_mem_cons.mp all
    rw [spanTrivia, if_pos (by simpa [or_assoc] using .inr here)]
    exact ih others

variable {f} in
/-- Where nothing stands behind a hyphen nothing is left. -/
theorem dropGap_of_peekBehind {cs : List Char} (none : peekBehind f cs = none) :
    f.dropGap cs = [] := by
  unfold peekBehind at none
  unfold Flags.dropGap
  split at none
  · next verbose =>
    rw [if_pos verbose]
    refine spanTrivia_of_forall ?_
    rw [← List.takeWhile_append_dropWhile (p := isBlank) (l := cs)]
    refine List.forall_mem_append.mpr
      ⟨fun c mem => .inl (List.mem_takeWhile_imp mem), ?_⟩
    split at none
    · next rest hash =>
      rw [hash]
      refine List.forall_mem_cons.mpr ⟨.inr rfl, fun c mem => .inl ?_⟩
      exact List.dropWhile_eq_nil_iff.mp (List.head?_eq_none_iff.mp none) c mem
    · rw [List.head?_eq_none_iff.mp none]
      exact List.forall_mem_nil _
  · next plain =>
    rw [if_neg plain]
    exact List.head?_eq_none_iff.mp none

/-- An interval between two members. -/
def intervalBetween (first last : Atom) : ElementReader CharSet := fun cs =>
  match first, last with
  | .point n rawN, .point m rawM => do
    if n ≤ m then return (.interval (← classPoint f n rawN)
      (← classPoint f m rawM), cs)
    else .error .badRange
  | _, _ => .error .badRange

/-- The upper end of an interval from `first`. -/
def readUpperMember (first : Atom) : ElementReader CharSet
  | [] => .error .unclosedClass
  | d :: ds =>
    readClassAtom f d ds >>= fun last => intervalBetween f first last.1 last.2

/-- An interval from `first` to a member that is still to be read. -/
def readInterval (first : Atom) : ElementReader CharSet := fun cs =>
  readUpperMember f first (f.dropGap cs)

/-- A member by itself. -/
def readLone (first : Atom) : ElementReader CharSet := fun cs =>
  match first with
  | .point n raw => do return (.single (← classPoint f n raw), f.dropGap cs)
  | .set s => .ok (s, f.dropGap cs)
  | .anchor _ => .error .badClassItem

theorem readsAhead_intervalBetween (first last : Atom) :
    ReadsAhead f (intervalBetween f first last) := by
  unfold intervalBetween
  split
  · next n rawN m rawM =>
    refine .ite ?_ (.error _)
    cases classPoint f n rawN with
    | error e => exact .error e
    | ok n =>
      cases classPoint f m rawM with
      | error e => exact .error e
      | ok m => exact .pure (CharSet.interval n m)
  · exact .error _

theorem readsAhead_upperMember (first : Atom) :
    ReadsAhead f (readUpperMember f first) :=
  .of_cons nofun fun d => (readsAhead_classAtom f d).bind fun last =>
    readsAhead_intervalBetween f first last

theorem readsAhead_interval (first : Atom) :
    ReadsAhead f (readInterval f first) :=
  (readsAhead_upperMember f first).behind_gap

theorem readsAhead_lone (first : Atom) : ReadsAhead f (readLone f first) := by
  cases first with
  | anchor => exact .error _
  | set s => exact (ReadsAhead.pure s).behind_gap
  | point n raw =>
    unfold readLone
    dsimp only
    cases classPoint f n raw with
    | error e => exact .error e
    | ok n => exact (ReadsAhead.pure (CharSet.single n)).behind_gap

/-- What stands behind a member decides whether it is the start of an
interval. -/
def readBehindMember (first : Atom) : ElementReader CharSet := fun cs =>
  match f.dropGap cs with
  | [] => .error .unclosedClass
  | '-' :: behind =>
    if peekBehind f behind = some ']' ∨ peekBehind f behind = some '-' then
      readLone f first cs
    else readInterval f first behind
  | _ => readLone f first cs

theorem readClassItem_eq (c : Char) :
    readClassItem f c = fun cs =>
      readClassAtom f c cs >>= fun read => readBehindMember f read.1 read.2 :=
  rfl

theorem readsWithin_behindMember (first : Atom) :
    ReadsWithin (readBehindMember f first) := by
  intro cs x rest ok
  unfold readBehindMember at ok ⊢
  split at ok
  · cases ok
  · next behind here =>
    have suffix : behind <:+ cs :=
      (List.suffix_cons '-' behind).trans (here ▸ f.dropGap_suffix cs)
    have gap (ds : List Char) : f.dropGap (cs ++ ds)
        = '-' :: (behind ++ ds) := by
      rw [f.dropGap_append (by rw [here]; exact List.cons_ne_nil _ _) ds, here]
      rfl
    simp only [gap]
    split at ok
    · next closing =>
      obtain ⟨suffix', same⟩ := (readsAhead_lone f first).within ok
      refine ⟨suffix', fun left ds => ?_⟩
      rw [if_pos (closing.imp (peekBehind_append · ds)
        (peekBehind_append · ds)), same left ds]
    · next interval =>
      obtain ⟨suffix', same⟩ := (readsAhead_interval f first).within ok
      refine ⟨suffix'.trans suffix, fun left ds => ?_⟩
      -- the interval has an upper end, so what stands behind the hyphen does
      -- not come from `ds`
      cases peeked : peekBehind f behind with
      | none =>
        rw [readInterval, dropGap_of_peekBehind peeked] at ok
        cases ok
      | some c =>
        rw [peeked] at interval
        rw [peekBehind_append peeked ds, if_neg interval, same left ds]
  · next nil hyphen =>
    obtain ⟨suffix', same⟩ := (readsAhead_lone f first).within ok
    refine ⟨suffix', fun left ds => ?_⟩
    rw [f.dropGap_append nil ds]
    obtain ⟨c, behind, here⟩ := List.exists_cons_of_ne_nil nil
    rw [here, List.cons_append]
    split
    · next none => cases none
    · next closing =>
      obtain ⟨rfl, -⟩ := List.cons.inj closing
      exact absurd here (hyphen behind)
    · exact same left ds

theorem readsWithin_classItem (c : Char) : ReadsWithin (readClassItem f c) := by
  rw [readClassItem_eq]
  exact (readsAhead_classAtom f c).within.bind fun first =>
    readsWithin_behindMember f first

/-! ## Named classes -/

theorem asciiNamed?_of_bracket {name : List Char} (bracket : ']' ∈ name) :
    CharSet.asciiNamed? (String.ofList name) = none := by
  have plain : ∀ entry ∈ CharSet.asciiClasses, ']' ∉ entry.1.toList := by
    decide +kernel
  rw [CharSet.asciiNamed?, Option.map_eq_none_iff, List.lookup_eq_none_iff]
  intro entry mem
  refine bne_iff_ne.mpr fun same => plain entry mem ?_
  rw [← same, String.toList_ofList]
  exact bracket

/-- A named class behind its colon and the circumflex. -/
def namedClass? (negated : Bool) (cs : List Char) :
    Option (CharSet × List Char) :=
  match cs.dropWhile (· != ':') with
  | ':' :: ']' :: rest =>
    (CharSet.asciiNamed? (String.ofList (cs.takeWhile (· != ':')))).map fun s =>
      (f.closeSet negated s, rest)
  | _ => none

theorem namedClass?_of_bracket {negated : Bool} {cs : List Char}
    (bracket : ']' ∈ cs.takeWhile (· != ':')) :
    namedClass? f negated cs = none := by
  unfold namedClass?
  split
  · rw [asciiNamed?_of_bracket bracket, Option.map_none]
  · rfl

/-- A name ends before the first bracket or is none. -/
theorem namedClass?_append (negated : Bool) {cs : List Char}
    (bracket : ']' ∈ cs) (ds : List Char) :
    namedClass? f negated (cs ++ ds)
      = (namedClass? f negated cs).map fun (s, rest) => (s, rest ++ ds) := by
  by_cases inside : ']' ∈ cs.takeWhile (· != ':')
  · rw [namedClass?_of_bracket f inside, Option.map_none]
    refine namedClass?_of_bracket f ?_
    rw [List.takeWhile_append]
    split
    · exact List.mem_append_left _ bracket
    · exact inside
  · have behind : ']' ∈ cs.dropWhile (· != ':') := by
      rw [← List.takeWhile_append_dropWhile (p := (· != ':')) (l := cs),
        List.mem_append] at bracket
      exact bracket.resolve_left inside
    have left : cs.dropWhile (· != ':') ≠ [] := List.ne_nil_of_mem behind
    have colon := List.head_dropWhile_not (· != ':') left
    obtain ⟨c, rest, here⟩ := List.exists_cons_of_ne_nil left
    unfold namedClass?
    rw [takeWhile_append_of_ne_nil left, dropWhile_append_of_ne_nil left]
    simp only [here, List.head_cons] at colon behind ⊢
    obtain rfl : c = ':' := by simpa using colon
    obtain ⟨d, rest, rfl⟩ := List.exists_cons_of_ne_nil
      (List.ne_nil_of_mem ((List.mem_cons.mp behind).resolve_left (by decide)))
    by_cases closed : d = ']'
    · subst closed
      simp only [List.cons_append, Option.map_map]
      rfl
    · simp [closed]

theorem namedClass?_suffix {negated : Bool} {cs rest : List Char} {s : CharSet}
    (found : namedClass? f negated cs = some (s, rest)) : rest <:+ cs := by
  unfold namedClass? at found
  split at found
  · next rest' here =>
    obtain ⟨_, -, same⟩ := Option.map_eq_some_iff.mp found
    cases same
    exact ((List.suffix_cons ']' _).trans (List.suffix_cons ':' _)).trans
      (here ▸ List.dropWhile_suffix _)
  · cases found

theorem readNamedClass?_plain {c : Char} (plain : c ≠ '^') (cs : List Char) :
    readNamedClass? f (':' :: c :: cs) = namedClass? f false (c :: cs) := by
  have start : (match c :: cs with
      | '^' :: cs => (true, cs)
      | _ => (false, c :: cs)) = (false, c :: cs) := by simp [plain]
  exact congrArg (fun start : Bool × List Char => namedClass? f start.1 start.2)
    start

theorem readNamedClass?_other {c : Char} (other : c ≠ ':') (cs : List Char) :
    readNamedClass? f (c :: cs) = none := by
  simp [readNamedClass?, other]

theorem readNamedClass?_append {cs : List Char} (bracket : ']' ∈ cs)
    (ds : List Char) :
    readNamedClass? f (cs ++ ds) = (readNamedClass? f cs).map fun (s, rest) =>
      (s, rest ++ ds) := by
  obtain ⟨c, cs, rfl⟩ := List.exists_cons_of_ne_nil (List.ne_nil_of_mem bracket)
  by_cases colon : c = ':'
  · subst colon
    replace bracket := (List.mem_cons.mp bracket).resolve_left (by decide)
    obtain ⟨c, cs, rfl⟩ :=
      List.exists_cons_of_ne_nil (List.ne_nil_of_mem bracket)
    by_cases negated : c = '^'
    · subst negated
      exact namedClass?_append f true
        ((List.mem_cons.mp bracket).resolve_left (by decide)) ds
    · simp only [List.cons_append, readNamedClass?_plain f negated]
      exact namedClass?_append f false bracket ds
  · simp only [List.cons_append, readNamedClass?_other f colon, Option.map_none]

theorem readNamedClass?_suffix {cs rest : List Char} {s : CharSet}
    (found : readNamedClass? f cs = some (s, rest)) :
    rest <:+ cs := by
  match cs with
  | [] => cases found
  | [c] =>
    by_cases colon : c = ':'
    · subst colon
      cases found
    · rw [readNamedClass?_other f colon] at found
      cases found
  | c :: d :: cs =>
    by_cases colon : c = ':'
    · subst colon
      refine List.IsSuffix.trans ?_ (List.suffix_cons ':' _)
      by_cases negated : d = '^'
      · subst negated
        exact (namedClass?_suffix f found).trans (List.suffix_cons '^' cs)
      · rw [readNamedClass?_plain f negated] at found
        exact namedClass?_suffix f found
    · rw [readNamedClass?_other f colon] at found
      cases found

/-! ## Whole classes -/

theorem readClassFrom_skip (stack : List ClassFrame) (set : CharSet)
    {cs rest : List Char} (suffix : rest <:+ cs) :
    readClassFrom f stack set (cs.length - rest.length) cs
      = readClassFrom f stack set 0 rest := by
  obtain ⟨front, rfl⟩ := suffix
  rw [List.length_append, Nat.add_sub_cancel]
  induction front with
  | nil => rfl
  | cons c front ih => exact ih

theorem bracket_mem_of_readClassFrom {stack : List ClassFrame}
    {set s : CharSet} {skip : Nat} {cs rest : List Char}
    (ok : readClassFrom f stack set skip cs = .ok (s, rest)) : ']' ∈ cs := by
  induction cs generalizing stack set skip with
  | nil => cases ok
  | cons c cs ih =>
    by_cases bracket : c = ']'
    · exact bracket ▸ List.mem_cons_self
    · refine List.mem_cons_of_mem c ?_
      cases skip with
      | succ skip => exact ih ok
      | zero =>
        unfold readClassFrom at ok
        dsimp only at ok
        rw [if_neg bracket] at ok
        split at ok
        · exact ih ok
        · split at ok
          · split at ok <;> exact ih ok
          · split at ok
            · exact ih ok
            · split at ok
              · cases ok
              · exact ih ok

theorem readClassFrom_gap (stack : List ClassFrame) (set : CharSet)
    (cs : List Char) :
    readClassFrom f stack set 0 cs
      = readClassFrom f stack set 0 (f.dropGap cs) := by
  cases cs with
  | nil => rw [List.suffix_nil.mp (f.dropGap_suffix [])]
  | cons c cs =>
    by_cases short : (f.dropGap (c :: cs)).length ≤ cs.length
    · have suffix := List.suffix_of_suffix_length_le
        (f.dropGap_suffix (c :: cs)) (List.suffix_cons c cs) short
      rw [← readClassFrom_skip f stack set suffix, readClassFrom, if_pos short]
    · rw [(f.dropGap_suffix (c :: cs)).eq_of_length_le
        (by simp only [List.length_cons]; omega)]

/-! ### Elements -/

/-- What a class is behind one of its elements: complete, or still open, with
the members read since. -/
inductive ClassTurn where
  | whole (set : CharSet)
  | inside (stack : List ClassFrame) (set : CharSet)

/-- What is read behind an element. -/
def ClassTurn.follow : ClassTurn → ElementReader CharSet
  | whole set, cs => .ok (set, cs)
  | inside stack set, cs => readClassFrom f stack set 0 cs

section Element

variable (stack : List ClassFrame) (set : CharSet)

/-- An opening bracket, of a named class or of any other. -/
def readInnerClass : ElementReader ClassTurn := fun cs =>
  match if stack.isEmpty then none else readNamedClass? f cs with
  | some (named, rest) => .ok (.inside stack (.union set named), rest)
  | none =>
    .ok (.inside (.opened set (readClassStart f cs).1 :: stack)
      (readClassStart f cs).2.1, (readClassStart f cs).2.2)

/-- A closing bracket. -/
def readClassEnd : ElementReader ClassTurn := fun cs =>
  match applyPending f set stack with
  | (members, .opened before negated :: stack) =>
    if stack.isEmpty then .ok (.whole (f.closeSet negated members), cs)
    else .ok (.inside stack (.union before (f.closeSet negated members)), cs)
  | _ => .error .unclosedClass

/-- An operator, written by a character twice, or members. -/
def readMembers (c : Char) : ElementReader ClassTurn := fun cs =>
  match SetOperator.ofChar? c, cs.head? == some c with
  | some op, true =>
    .ok (.inside (.operator op (applyPending f set stack).1 ::
      (applyPending f set stack).2) .nothing, cs.tail)
  | _, _ =>
    readClassItem f c cs >>= fun item =>
      .ok (.inside stack (.union set item.1), item.2)

/-- An element of a class, which starts with `c`. -/
def readClassElement (c : Char) : ElementReader ClassTurn := fun cs =>
  if c = '[' then readInnerClass f stack set cs
  else if c = ']' then readClassEnd f stack set cs
  else readMembers f stack set c cs

theorem innerNamed_suffix {cs : List Char} {found : CharSet × List Char}
    (named : (if stack.isEmpty then none else readNamedClass? f cs)
      = some found) :
    found.2 <:+ cs := by
  split at named
  · cases named
  · exact readNamedClass?_suffix f named

theorem readInnerClass_suffix {cs rest : List Char} {turn : ClassTurn}
    (read : readInnerClass f stack set cs = .ok (turn, rest)) :
    rest <:+ cs := by
  unfold readInnerClass at read
  split at read
  · next found rest' here =>
    cases read
    exact innerNamed_suffix f stack here
  · cases read
    exact (@readsWithin_classStart f cs _ _ rfl).1

/-- A bracket behind the name of a class is part of the class around it. -/
theorem innerNamed_append {cs : List Char} (bracket : ']' ∈ cs)
    (ds : List Char) :
    (if stack.isEmpty then none else readNamedClass? f (cs ++ ds))
      = (if stack.isEmpty then none else readNamedClass? f cs).map
      fun (s, rest) => (s, rest ++ ds) := by
  rw [readNamedClass?_append f bracket ds]
  split <;> rfl

theorem readInnerClass_append {cs rest : List Char}
    {turn : ClassTurn} (bracket : ']' ∈ cs)
    (read : readInnerClass f stack set cs = .ok (turn, rest)) (left : rest ≠ [])
    (ds : List Char) :
    readInnerClass f stack set (cs ++ ds) = .ok (turn, rest ++ ds) := by
  unfold readInnerClass at read ⊢
  split at read
  · next found rest' here =>
    cases read
    rw [innerNamed_append f stack bracket ds, here]
    rfl
  · next none =>
    cases read
    obtain ⟨-, start⟩ := @readsWithin_classStart f cs _ _ rfl
    obtain ⟨⟨negated, set⟩, behind⟩ := by
      simpa only [Prod.mk.injEq] using Except.ok.inj (start left ds)
    rw [innerNamed_append f stack bracket ds, none, negated, set, behind]
    rfl

theorem readsClosed_classEnd : ReadsClosed (readClassEnd f stack set) := by
  unfold readClassEnd
  split
  · exact .ite (.pure _) (.pure _)
  · exact .error _

theorem readsWithin_members (c : Char) :
    ReadsWithin (readMembers f stack set c) := by
  have item := (readsWithin_classItem f c).bind fun item =>
    (ReadsClosed.pure (ClassTurn.inside stack (.union set item))).within
  intro cs turn rest read
  unfold readMembers at read ⊢
  split at read
  · next op found twice =>
    obtain ⟨cs, rfl⟩ := List.head?_eq_some_iff.mp (beq_iff_eq.mp twice)
    cases read
    refine ⟨List.suffix_cons c cs, fun _ ds => ?_⟩
    rw [found]
    simp
  · next other =>
    obtain ⟨suffix, same⟩ := item read
    refine ⟨suffix, fun left ds => ?_⟩
    have head : (cs ++ ds).head? = cs.head? := by
      cases cs with
      | nil => exact absurd (List.suffix_nil.mp suffix) left
      | cons d cs => rfl
    rw [head]
    split
    · next op found twice => exact (other op found twice).elim
    · exact same left ds

theorem readClassElement_suffix {c : Char}
    {cs rest : List Char} {turn : ClassTurn}
    (read : readClassElement f stack set c cs = .ok (turn, rest)) :
    rest <:+ cs := by
  unfold readClassElement at read
  split at read
  · exact readInnerClass_suffix f stack set read
  · split at read
    · exact (readsClosed_classEnd f stack set read).1
    · exact (readsWithin_members f stack set c read).1

/-- An element that does not end the text is read the same whatever follows. -/
theorem readClassElement_append {c : Char} {cs rest : List Char}
    {turn : ClassTurn} (bracket : c = '[' → ']' ∈ cs)
    (read : readClassElement f stack set c cs = .ok (turn, rest))
    (left : c = ']' ∨ rest ≠ []) (ds : List Char) :
    readClassElement f stack set c (cs ++ ds) = .ok (turn, rest ++ ds) := by
  unfold readClassElement at read ⊢
  split at read
  · next opening =>
    rw [if_pos opening]
    have some : rest ≠ [] := left.resolve_left fun closing =>
      absurd (opening.symm.trans closing) (by decide)
    exact readInnerClass_append f stack set (bracket opening) read some ds
  · next opening =>
    rw [if_neg opening]
    split at read
    · next closing =>
      rw [if_pos closing]
      exact (readsClosed_classEnd f stack set read).2 ds
    · next closing =>
      rw [if_neg closing]
      exact (readsWithin_members f stack set c read).2
        (left.resolve_left closing) ds

/-- Only a closing bracket completes a class. -/
theorem eq_bracket_of_whole {c : Char} {cs rest : List Char} {s : CharSet}
    (read : readClassElement f stack set c cs = .ok (.whole s, rest)) :
    c = ']' := by
  unfold readClassElement readInnerClass readMembers at read
  split at read
  · split at read <;> cases read
  · split at read
    · assumption
    · split at read
      · cases read
      · obtain ⟨item, -, same⟩ := bind_ok_iff.mp read
        cases same

/-- A member of a class, and what is read behind it. -/
theorem readClassFrom_item {c : Char} {cs : List Char} :
    (match readClassItem f c cs with
      | .error e => .error e
      | .ok (item, rest) =>
        readClassFrom f stack (.union set item) (cs.length - rest.length) cs)
      = (readClassItem f c cs >>= fun item => .ok
        (ClassTurn.inside stack (.union set item.1), item.2)) >>= fun read =>
          read.1.follow f read.2 := by
  cases item : readClassItem f c cs with
  | error e => rfl
  | ok read => exact readClassFrom_skip f _ _ (readsWithin_classItem f c item).1

theorem readClassFrom_element {c : Char} {cs cs' : List Char}
    (gap : f.dropGap cs = c :: cs') :
    readClassFrom f stack set 0 cs
      = readClassElement f stack set c cs' >>= fun read =>
        read.1.follow f read.2 := by
  -- the gap has been skipped, so the element is read at once
  have long : ¬ (f.dropGap (c :: cs')).length ≤ cs'.length := by
    rw [← gap, f.dropGap_dropGap, gap, List.length_cons]
    omega
  rw [readClassFrom_gap, gap, readClassFrom, if_neg long]
  unfold readClassElement
  by_cases opening : c = '['
  · simp only [opening, if_true]
    unfold readInnerClass
    cases named : if stack.isEmpty then none else readNamedClass? f cs' with
    | some found =>
      exact readClassFrom_skip f _ _ (innerNamed_suffix f stack named)
    | none =>
      exact readClassFrom_skip f _ _ (@readsWithin_classStart f cs' _ _ rfl).1
  simp only [opening, if_false]
  by_cases closing : c = ']'
  · simp only [closing, if_true]
    unfold readClassEnd
    obtain ⟨members, frames⟩ := applyPending f set stack
    cases frames with
    | nil => rfl
    | cons frame frames =>
      cases frame with
      | opened before negated =>
        dsimp only
        split <;> rfl
      | operator op left => rfl
  simp only [closing, if_false]
  unfold readMembers
  cases SetOperator.ofChar? c with
  | none => exact readClassFrom_item f stack set
  | some op =>
    cases twice : cs'.head? == some c with
    | false => exact readClassFrom_item f stack set
    | true =>
      obtain ⟨cs', rfl⟩ := List.head?_eq_some_iff.mp (beq_iff_eq.mp twice)
      rfl

end Element

/-! ### Whole classes -/

/-- An element with what is read behind it: the class ends at the same place
whatever follows. -/
theorem readClassElement_closed {stack : List ClassFrame} {set s : CharSet}
    {c : Char} {cs rest : List Char} (bracket : c = '[' → ']' ∈ cs)
    (behind : ∀ stack set (rest' : List Char), rest' <:+ cs → ∀ {s rest},
      readClassFrom f stack set 0 rest' = .ok (s, rest) → rest <:+ rest' ∧ ∀ ds,
          readClassFrom f stack set 0 (rest' ++ ds) = .ok (s, rest ++ ds))
    (ok : (readClassElement f stack set c cs >>= fun read =>
      read.1.follow f read.2) = .ok (s, rest)) :
    rest <:+ cs ∧ ∀ ds, (readClassElement f stack set c (cs ++ ds)
      >>= fun read => read.1.follow f read.2)
      = .ok (s, rest ++ ds) := by
  obtain ⟨⟨turn, rest'⟩, read, there⟩ := bind_ok_iff.mp ok
  have suffix := readClassElement_suffix f stack set read
  cases turn with
  | whole members =>
    cases there
    have same := readClassElement_append f stack set bracket read
      (.inl (eq_bracket_of_whole f stack set read))
    exact ⟨suffix, fun ds => by rw [same ds]; rfl⟩
  | inside stack' set' =>
    have some : rest' ≠ [] := by
      rintro rfl
      cases there
    have same := readClassElement_append f stack set bracket read (.inr some)
    obtain ⟨suffix', same'⟩ := behind stack' set' rest' suffix there
    exact ⟨suffix'.trans suffix, fun ds => by rw [same ds]; exact same' ds⟩

theorem readsClosed_classFrom (stack : List ClassFrame) (set : CharSet) :
    ReadsClosed (readClassFrom f stack set 0) := by
  intro cs s rest ok
  induction len : cs.length using Nat.strong_induction_on
      generalizing cs stack set s rest with
  | _ n ih =>
    cases gap : f.dropGap cs with
    | nil =>
      rw [readClassFrom_gap, gap] at ok
      cases ok
    | cons c cs' =>
      have suffix : c :: cs' <:+ cs := gap ▸ f.dropGap_suffix cs
      have bracket : c = '[' → ']' ∈ cs' := fun opening => by
        rw [readClassFrom_gap, gap] at ok
        exact (List.mem_cons.mp
          (bracket_mem_of_readClassFrom f ok)).resolve_left
          (by rw [opening]; decide)
      rw [readClassFrom_element f stack set gap] at ok
      obtain ⟨suffix', same⟩ := readClassElement_closed f bracket
        (fun stack set rest' part s rest ok => ih rest'.length (by
          have := part.length_le; have := suffix.length_le; simp at this; omega)
          stack set ok rfl) ok
      refine ⟨suffix'.trans ((List.suffix_cons c cs').trans suffix),
        fun ds => ?_⟩
      have gap' : f.dropGap (cs ++ ds) = c :: (cs' ++ ds) := by
        rw [f.dropGap_append (by rw [gap]; exact List.cons_ne_nil c cs')
          ds, gap]
        rfl
      rw [readClassFrom_element f stack set gap', same ds]

/-- A class is read to its closing bracket. -/
theorem readsClosed_class : ReadsClosed fun cs => readClass f ('[' :: cs) := by
  intro cs s rest ok
  have gap (cs : List Char) : f.dropGap ('[' :: cs) = '[' :: cs := by
    simp only [Flags.dropGap]
    split <;> rfl
  have bracket : ']' ∈ cs :=
    (List.mem_cons.mp (bracket_mem_of_readClassFrom f ok)).resolve_left
      (by decide)
  simp only [readClass, readClassFrom_element f _ _ (gap _)] at ok ⊢
  exact readClassElement_closed f (fun _ => bracket)
    (fun stack set _ _ _ _ ok => readsClosed_classFrom f stack set ok) ok

end Classes

end Lexigram.Pattern
