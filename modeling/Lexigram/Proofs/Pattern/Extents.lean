import Lexigram.Proofs.Pattern.CutElements

/-!
What elements take. Where blanks count, the text that a reader takes off the
front of a pattern is just what it has seen. In escapes behind the first
character, in bounds and in flags there are no characters that open or close
anything (`takes_escape`, `takes_boundPair`, `takes_flags`), for there are none
in the names of properties. A class ends with its last bracket, and in front of
it every backslash takes a character along (`takes_class`).
-/

namespace Lexigram.Pattern

open Text Unicode

/-! ## Kinds of texts -/

/-- The characters that open, close and divide. -/
def marks : List Char :=
  ['\\', '[', ']', '(', ')', '|']

/-- What a test finds of every mark. A bound over characters is not left to
`decide`, which may go through all of them. -/
theorem forall_marks {p : Char → Prop} [DecidablePred p]
    (all : marks.all fun c => p c) : ∀ c ∈ marks, p c := by
  simpa using all

/-- Whether there are no marks in a text. -/
def IsPlain (text : List Char) : Prop :=
  ∀ c ∈ text, c ∉ marks

instance (text : List Char) : Decidable (IsPlain text) :=
  List.decidableBAll (· ∉ marks) text

/-- Whether every backslash of a text takes a character along. -/
inductive Paired : List Char → Prop
  | nil : Paired []
  | escape (c : Char) {cs : List Char} (others : Paired cs) :
      Paired ('\\' :: c :: cs)
  | other {c : Char} {cs : List Char} (plain : c ≠ '\\') (others : Paired cs) :
      Paired (c :: cs)

theorem IsPlain.nil : IsPlain [] :=
  List.forall_mem_nil _

theorem IsPlain.cons {c : Char} {text : List Char} (plain : c ∉ marks)
    (h : IsPlain text) : IsPlain (c :: text) :=
  List.forall_mem_cons.mpr ⟨plain, h⟩

theorem IsPlain.append {cs ds : List Char} (h : IsPlain cs) (h' : IsPlain ds) :
    IsPlain (cs ++ ds) :=
  List.forall_mem_append.mpr ⟨h, h'⟩

theorem Paired.append {cs ds : List Char} (h : Paired cs) (h' : Paired ds) :
    Paired (cs ++ ds) := by
  induction h with
  | nil => exact h'
  | escape c _ ih => exact .escape c ih
  | other plain _ ih => exact .other plain ih

theorem paired_of_forall {cs : List Char} (h : ∀ c ∈ cs, c ≠ '\\') :
    Paired cs := by
  induction cs with
  | nil => exact .nil
  | cons c cs ih =>
    obtain ⟨here, others⟩ := List.forall_mem_cons.mp h
    exact .other here (ih others)

theorem IsPlain.paired {cs : List Char} (h : IsPlain cs) : Paired cs :=
  paired_of_forall fun c mem same => h c mem (same ▸ by decide)

/-! ## What readers take -/

/-- Whether what a reader takes off the front of a text is of a kind. -/
def Takes {α : Type} (P : List Char → Prop) (read : ElementReader α) : Prop :=
  ∀ ⦃cs x rest⦄, read cs = .ok (x, rest) → ∃ text, cs = text ++ rest ∧ P text

namespace Takes

variable {α β : Type} {P Q R : List Char → Prop} {read : ElementReader α}
  {next : α → ElementReader β}

theorem of_read (h : Takes P read) {text rest : List Char} {x : α}
    (ok : read (text ++ rest) = .ok (x, rest)) :
    P text := by
  obtain ⟨text', same, holds⟩ := h ok
  rwa [List.append_cancel_right same]

theorem imp (h : Takes P read) (implies : ∀ text, P text → Q text) :
    Takes Q read := fun _ _ _ ok => by
  obtain ⟨text, same, holds⟩ := h ok
  exact ⟨text, same, implies text holds⟩

theorem pure (nil : P []) (x : α) : Takes P fun cs => .ok (x, cs) := by
  rintro cs _ _ ⟨⟩
  exact ⟨[], rfl, nil⟩

theorem error (e : PatternFault) :
    Takes P fun _ => (.error e : Except _ (α × _)) :=
  nofun

theorem ite {p : Prop} [Decidable p] {yes no : ElementReader α}
    (h₁ : Takes P yes) (h₂ : Takes P no) :
    Takes P fun cs => if p then yes cs else no cs := by
  by_cases h : p
  · simpa only [if_pos h] using h₁
  · simpa only [if_neg h] using h₂

theorem bind (joins : ∀ {cs ds}, P cs → Q ds → R (cs ++ ds))
    (first : Takes P read) (second : ∀ x, Takes Q (next x)) :
    Takes R fun cs => read cs >>= fun y => next y.1 y.2 := by
  intro cs z rest ok
  obtain ⟨⟨x, middle⟩, here, there⟩ := bind_ok_iff.mp ok
  obtain ⟨text, rfl, holds⟩ := first here
  obtain ⟨text', rfl, holds'⟩ := second x there
  exact ⟨text ++ text', (List.append_assoc ..).symm, joins holds holds'⟩

/-- Something has to be read. -/
theorem of_cons (nil : ∀ y, read [] ≠ .ok y)
    (cons : ∀ c, Takes (fun text => P (c :: text)) fun cs => read (c :: cs)) :
    Takes P read := by
  intro cs x rest ok
  cases cs with
  | nil => exact absurd ok (nil _)
  | cons c cs =>
    obtain ⟨text, rfl, holds⟩ := cons c ok
    exact ⟨c :: text, rfl, holds⟩

/-- The first character decides how to go on. -/
theorem choose {yes no : ElementReader α} (c : Char)
    (nil : read [] = no []) (first : ∀ cs, read (c :: cs) = yes cs)
    (other : ∀ d cs, d ≠ c → read (d :: cs) = no (d :: cs))
    (h₁ : Takes (fun text => P (c :: text)) yes) (h₂ : Takes P no) :
    Takes P read := by
  intro cs x rest ok
  cases cs with
  | nil => exact h₂ (nil ▸ ok)
  | cons d cs =>
    by_cases same : d = c
    · subst same
      obtain ⟨text, rfl, holds⟩ := h₁ (first cs ▸ ok)
      exact ⟨d :: text, rfl, holds⟩
    · exact h₂ (other d cs same ▸ ok)

end Takes

/-- A reader of plain text behind a plain character. -/
theorem Takes.behind {α : Type} {read : ElementReader α} {c : Char}
    (plain : c ∉ marks) (h : Takes IsPlain read) :
    Takes (fun text => IsPlain (c :: text)) read :=
  h.imp fun _ => .cons plain

/-! ## Characters of a kind -/

variable {f : Flags}

theorem Flags.dropGap_eq_self (plain : f.verbose = false) (cs : List Char) :
    f.dropGap cs = cs := by
  simp [dropGap, plain]

theorem takes_dropWhile {p : Char → Bool} (others : ∀ c ∈ marks, p c = false) :
    Takes IsPlain fun cs => .ok ((), cs.dropWhile p) := by
  rintro cs _ _ ⟨⟩
  refine ⟨cs.takeWhile p, List.takeWhile_append_dropWhile.symm,
    fun c mem mark => ?_⟩
  have kept := List.mem_takeWhile_imp mem
  rw [others c mark] at kept
  cases kept

theorem spanGaps_append_eq (plain : f.verbose = false) (keep : Char → Bool)
    (bound : Nat) (cs : List Char) :
    (spanGaps f keep bound cs).1 ++ (spanGaps f keep bound cs).2 = cs ∧
      ∀ c ∈ (spanGaps f keep bound cs).1, keep c = true := by
  induction bound generalizing cs with
  | zero => exact ⟨rfl, List.forall_mem_nil _⟩
  | succ bound ih =>
    cases cs with
    | nil => exact ⟨rfl, List.forall_mem_nil _⟩
    | cons c cs =>
      simp only [spanGaps, f.dropGap_eq_self plain]
      split
      · next kept =>
        obtain ⟨whole, all⟩ := ih cs
        exact ⟨congrArg (c :: ·) whole, List.forall_mem_cons.mpr ⟨kept, all⟩⟩
      · exact ⟨rfl, List.forall_mem_nil _⟩

theorem takes_spanGaps (plain : f.verbose = false) (keep : Char → Bool)
    (others : ∀ c ∈ marks, keep c = false) (bound : List Char → Nat) :
    Takes IsPlain fun cs => .ok (spanGaps f keep (bound cs) cs) := by
  intro cs x rest ok
  have same := Except.ok.inj ok
  obtain ⟨whole, all⟩ := spanGaps_append_eq plain keep (bound cs) cs
  rw [same] at whole all
  refine ⟨x, whole.symm, fun c mem mark => ?_⟩
  have kept := all c mem
  rw [others c mark] at kept
  cases kept

/-! ## Escapes -/

theorem takes_gap (plain : f.verbose = false) : Takes IsPlain (readGap f) := by
  intro cs x rest ok
  obtain rfl : cs = rest := by simpa [readGap, f.dropGap_eq_self plain] using ok
  exact ⟨[], rfl, IsPlain.nil⟩

theorem Takes.behind_gap {α : Type} {P : List Char → Prop}
    {read : ElementReader α} (plain : f.verbose = false) (h : Takes P read) :
    Takes P fun cs => read (f.dropGap cs) := by
  simpa only [f.dropGap_eq_self plain] using h

theorem not_mem_marks_of_hexDigit? {c : Char} {d : Nat}
    (digit : hexDigit? c = some d) : c ∉ marks := by
  intro mark
  have none : ∀ c ∈ marks, hexDigit? c = none := forall_marks (by decide)
  rw [none c mark] at digit
  cases digit

theorem takes_hexDigits (plain : f.verbose = false) (count : Nat) :
    Takes IsPlain (readHexDigits f count) := by
  induction count with
  | zero => exact .pure IsPlain.nil []
  | succ count ih =>
    refine .of_cons nofun fun c => ?_
    simp only [readHexDigits]
    cases digit : hexDigit? c with
    | none => exact .error _
    | some d =>
      have others := Takes.bind IsPlain.append (ih.behind_gap plain)
          fun digits =>
        .pure IsPlain.nil (d :: digits)
      exact others.behind (not_mem_marks_of_hexDigit? digit)

/-- What is read up to a closing brace is the text there. -/
theorem eq_of_readBraced (plain : f.verbose = false) {bound : Nat}
    {cs name rest : List Char} (ok : readBraced f bound cs = .ok (name, rest)) :
    cs = name ++ '\x7d' :: rest := by
  induction bound generalizing cs name with
  | zero => cases ok
  | succ bound ih =>
    rw [readBraced, f.dropGap_eq_self plain] at ok
    cases cs with
    | nil => cases ok
    | cons c cs =>
      dsimp only at ok
      split at ok
      · next close =>
        cases ok
        rw [close, List.nil_append]
      · obtain ⟨name', there, rfl⟩ := bind_cons_ok_iff.mp ok
        rw [ih there, List.cons_append]

theorem isPlain_of_mapM_hexDigit? {cs : List Char} {digits : List Nat}
    (read : cs.mapM hexDigit? = some digits) :
    IsPlain cs := by
  induction cs generalizing digits with
  | nil => exact IsPlain.nil
  | cons c cs ih =>
    rw [List.mapM_cons] at read
    obtain ⟨d, digit, read⟩ := Option.bind_eq_some_iff.mp read
    obtain ⟨digits', read, -⟩ := Option.bind_eq_some_iff.mp read
    exact .cons (not_mem_marks_of_hexDigit? digit) (ih read)

theorem takes_hexBraced (plain : f.verbose = false) :
    Takes IsPlain fun cs => readHexBraced f (cs.length + 1) cs := by
  intro cs digits rest ok
  obtain ⟨name, there, read⟩ := readHexBraced_ok_iff.mp ok
  exact ⟨name ++ ['\x7d'], by simp [eq_of_readBraced plain there],
    IsPlain.append (isPlain_of_mapM_hexDigit? read) (by decide)⟩

theorem takes_hex (plain : f.verbose = false) (width : Nat) :
    Takes IsPlain (readHex f width) := by
  have braced := Takes.bind IsPlain.append (takes_hexBraced plain) fun digits =>
    Takes.ite (p := digits.isEmpty = true) (.error .badEscape)
      (.ite (p := isScalar (hexValue digits) = true)
        ((Takes.pure IsPlain.nil
          (Atom.point (hexValue digits) false)).behind_gap plain)
        (.error .badCodePoint))
  have counted :=
    Takes.bind IsPlain.append (takes_hexDigits plain width) fun digits =>
      Takes.ite (p := isScalar (hexValue digits) = true)
        (.pure IsPlain.nil (Atom.point (hexValue digits) (width = 2)))
        (.error .badCodePoint)
  have at_ : Takes IsPlain (readHexAt f width) := by
    refine .choose '\x7b' ?_ (fun _ => rfl) (fun d cs other => ?_)
      (braced.behind (by decide)) counted
    · rfl
    · unfold readHexAt
      split
      · next same => exact absurd (List.cons.inj same).1 other
      · rfl
  exact at_.behind_gap plain

/-! ## Properties -/

theorem toLower_eq_iff_of_mark {c d : Char} (mark : c ∈ marks) :
    d.toLower = c ↔ d = c := by
  constructor
  · intro same
    unfold Char.toLower at same
    split at same
    · next upper =>
      -- what comes of a letter is a letter
      have sum := congrArg (fun c : Char => c.val.toNat) same
      have shift : ('a'.val - 'A'.val).toNat = 32 := by decide
      have first : 'A'.val.toNat = 65 := rfl
      have last : 'Z'.val.toNat = 90 := rfl
      have others : ∀ c ∈ marks, c.val.toNat < 97 ∨ 122 < c.val.toNat :=
        forall_marks (by decide)
      have := others c mark
      simp only [ge_iff_le, UInt32.le_iff_toNat_le] at upper
      simp only [UInt32.toNat_add] at sum
      omega
    · exact same
  · rintro rfl
    have all : ∀ c ∈ marks, c.toLower = c := forall_marks (by decide)
    exact all d mark

/-- The loose spelling of a name keeps its marks. -/
theorem mem_looseName_iff {name : List Char} {c : Char} (mark : c ∈ marks) :
    c ∈ (looseName name).toList ↔ c ∈ name := by
  have counts : ∀ c ∈ marks,
      c ≠ 'i' ∧ c ≠ 's' ∧ c ≠ 'c' ∧ c.toNat < 128 ∧ c ≠ ' ' ∧ c ≠ '_' ∧
      c ≠ '-' := forall_marks (by decide)
  obtain ⟨i, s, other, kept⟩ := counts c mark
  have lower : c ∈ name.map Char.toLower ↔ c ∈ name := by
    simp [toLower_eq_iff_of_mark mark]
  rw [← lower]
  unfold looseName
  generalize name.map Char.toLower = lowered
  simp only
  split
  · next rest alone =>
    -- nothing but a letter is kept of the name
    have gone : c ∉ rest := fun mem => other <| List.mem_singleton.mp <| by
      rw [← alone]
      exact List.mem_filter.mpr ⟨mem, by simpa using kept⟩
    simp [i, s, other, gone]
  · rw [String.toList_ofList, List.mem_filter]
    split <;> simp [i, s, kept]

theorem isPlain_looseName_iff {name : List Char} :
    IsPlain (looseName name).toList ↔ IsPlain name := by
  constructor
  · exact fun h c mem mark => h c ((mem_looseName_iff mark).mpr mem) mark
  · exact fun h c mem mark => h c ((mem_looseName_iff mark).mp mem) mark

/-- A text is plain if none of its bytes is that of a mark. -/
theorem isPlain_of_bytes {s : String} (none : s.toByteArray.data.toList.all
      fun b => b.toNat ∉ marks.map Char.toNat) : IsPlain s.toList := by
  intro c mem mark
  have small : ∀ c ∈ marks,
      c.toNat.toUInt8 ∈ String.utf8EncodeChar c ∧
      c.toNat.toUInt8.toNat = c.toNat := forall_marks (by decide)
  obtain ⟨bytes, same⟩ := small c mark
  refine of_decide_eq_true (List.all_eq_true.mp none c.toNat.toUInt8 ?_) (by
    rw [same]
    exact List.mem_map_of_mem mark)
  rw [← String.utf8Encode_toList, List.utf8Encode, List.data_toByteArray]
  exact List.mem_flatMap.mpr ⟨c, mem, bytes⟩

theorem isPlain_tableNames : ∀ entry ∈ categoryNames ++ binaryNames,
    ∀ name ∈ entry.1, IsPlain name.toList := by
  have none : ∀ entry ∈ categoryNames ++ binaryNames, ∀ name ∈ entry.1,
      name.toByteArray.data.toList.all fun b =>
        b.toNat ∉ marks.map Char.toNat := by decide +kernel
  exact fun entry mem name listed =>
    isPlain_of_bytes (none entry mem name listed)

theorem isPlain_scriptNames :
    ∀ s ∈ scripts, ∀ name ∈ [s.name, s.short], IsPlain name.toList := by
  have none : ∀ s ∈ scripts, ∀ name ∈ [s.name, s.short],
      name.toByteArray.data.toList.all fun b =>
        b.toNat ∉ marks.map Char.toNat := by decide +kernel
  exact fun s mem name listed => isPlain_of_bytes (none s mem name listed)

theorem isPlain_of_lookUp {table : List (List String × CodeSet)}
    (part : table ⊆ categoryNames ++ binaryNames) {name : String}
    {set : CodeSet} (found : lookUp table name = some set) :
    IsPlain name.toList := by
  obtain ⟨entry, there, -⟩ := Option.map_eq_some_iff.mp found
  have listed := List.find?_some there
  exact isPlain_tableNames entry (part (List.mem_of_find?_eq_some there)) name
    (by simpa using listed)

theorem isPlain_of_scriptNamed? {name : String} {set : CodeSet}
    (found : scriptNamed? name = some set) :
    IsPlain name.toList := by
  obtain ⟨s, there, -⟩ := Option.map_eq_some_iff.mp found
  have plain := isPlain_scriptNames s (List.mem_of_find?_eq_some there)
  have same := List.find?_some there
  simp only [decide_eq_true_eq] at same
  rcases same with rfl | rfl | ⟨-, rfl⟩ | ⟨-, rfl⟩
  · exact isPlain_looseName_iff.mpr (plain _ List.mem_cons_self)
  · exact isPlain_looseName_iff.mpr
      (plain _ (List.mem_cons_of_mem _ List.mem_cons_self))
  · decide
  · decide

theorem isPlain_of_named? {name : List Char} {set : CodeSet}
    (found : named? name = some set) : IsPlain name := by
  refine isPlain_looseName_iff.mp ?_
  simp only [named?, Option.orElse_eq_orElse,
    Option.orElse_eq_or, Option.or_eq_some_iff] at found
  rcases found with found | ⟨-, found | ⟨-, found⟩⟩
  · exact isPlain_of_lookUp (List.subset_append_right _ _) found
  · exact isPlain_of_lookUp (List.subset_append_left _ _) found
  · exact isPlain_of_scriptNamed? found

theorem isPlain_of_valued? {property value : List Char} {set : CodeSet}
    (found : valued? property value = some set) :
    IsPlain property ∧ IsPlain value := by
  rw [← isPlain_looseName_iff, ← @isPlain_looseName_iff value]
  unfold valued? at found
  simp only at found
  split at found
  · next names =>
    refine ⟨?_, isPlain_of_lookUp (List.subset_append_left _ _) found⟩
    rcases names with name | name <;> rw [name] <;> decide
  · split at found
    · next names =>
      refine ⟨?_, isPlain_of_scriptNamed? found⟩
      rcases names with name | name <;> rw [name] <;> decide
    · cases found

theorem eq_of_splitAt? {separator text before behind : List Char}
    (split : splitAt? separator text = some (before, behind)) :
    text = before ++ separator ++ behind := by
  induction text generalizing before with
  | nil =>
    obtain ⟨none, same⟩ := Option.ite_none_right_eq_some.mp split
    cases same
    rw [List.isEmpty_iff.mp none]
    rfl
  | cons c cs ih =>
    unfold splitAt? at split
    split at split
    · next front =>
      cases split
      obtain ⟨rest, same⟩ := List.isPrefixOf_iff_prefix.mp front
      rw [← same, List.drop_left, List.nil_append]
    · obtain ⟨⟨before', behind'⟩, there, same⟩ :=
        Option.map_eq_some_iff.mp split
      cases same
      rw [ih there, List.cons_append, List.cons_append]

theorem isPlain_of_propertySet? {text : List Char} {found : CodeSet × Bool}
    (known : propertySet? text = some found) :
    IsPlain text := by
  have valued {name value separator : List Char}
      {inverted : Bool} (plain : IsPlain separator)
      (split : splitAt? separator text = some (name, value))
      (known : (valued? name value).map (·, inverted) = some found) :
      IsPlain text := by
    obtain ⟨set, there, -⟩ := Option.map_eq_some_iff.mp known
    obtain ⟨left, right⟩ := isPlain_of_valued? there
    rw [eq_of_splitAt? split]
    exact IsPlain.append (IsPlain.append left plain) right
  unfold propertySet? at known
  split at known
  · next name value split => exact valued (by decide) split known
  · split at known
    · next name value split =>
      simp only [Option.orElse_eq_orElse,
        Option.orElse_eq_or, Option.or_eq_some_iff] at split
      rcases split with split | ⟨-, split⟩
      · exact valued (by decide) split known
      · exact valued (by decide) split known
    · obtain ⟨set, there, -⟩ := Option.map_eq_some_iff.mp known
      exact isPlain_of_named? there

theorem takes_findProperty (negated : Bool) {name cs rest : List Char}
    {a : Atom} (found : findProperty f negated name cs = .ok (a, rest)) :
    rest = cs ∧ IsPlain name := by
  unfold findProperty at found
  split at found
  · cases found
  · next known =>
    split at found
    · cases found
      exact ⟨rfl, isPlain_of_propertySet? known⟩
    · cases found

theorem takes_property (plain : f.verbose = false) (negated : Bool) :
    Takes IsPlain (readProperty f negated) := by
  have at_ : Takes IsPlain fun cs => readPropertyName f cs >>= fun name =>
      findProperty f negated name.1 name.2 := by
    intro cs a rest ok
    obtain ⟨⟨name, rest'⟩, here, found⟩ := bind_ok_iff.mp ok
    obtain ⟨rfl, known⟩ := takes_findProperty negated found
    unfold readPropertyName at here
    split at here
    · next inside =>
      rw [eq_of_readBraced plain here]
      exact ⟨'\x7b' :: (name ++ ['\x7d']), by simp,
        .cons (by decide) (known.append (by decide))⟩
    · unfold readPropertyLetter at here
      split at here
      · cases here
      · cases here
      · rw [f.dropGap_eq_self plain] at here
        cases here
        exact ⟨_, rfl, known⟩
  rw [readProperty_eq]
  exact at_.behind_gap plain

/-! ## All escapes -/

theorem takes_boundary (plain : f.verbose = false) :
    Takes IsPlain (readBoundary f) := by
  intro cs a rest ok
  unfold readBoundary at ok
  split at ok
  · next inside =>
    rw [f.dropGap_eq_self plain] at ok
    split at ok
    · cases ok
    · next c rest' =>
      split at ok
      · simp only [readBoundaryName_eq] at ok
        generalize named : spanGaps f isBoundaryLetter _ (c :: rest')
          = read at ok
        obtain ⟨name, behind⟩ := read
        simp only at ok
        split at ok
        · cases ok
          obtain ⟨text, same, letters⟩ :=
            takes_spanGaps plain isBoundaryLetter (forall_marks (by decide))
              (fun _ => rest'.length + 2) (congrArg Except.ok named)
          exact ⟨'\x7b' :: (text ++ ['\x7d']), by simp [same],
            .cons (by decide) (letters.append (by decide))⟩
        · cases ok
      · cases ok
        exact ⟨[], rfl, .nil⟩
  · cases ok
    exact ⟨[], rfl, .nil⟩

/-- Whether a text is a character, any one, and no marks behind it. -/
def IsEscape (text : List Char) : Prop :=
  ∃ c others, text = c :: others ∧ IsPlain others

theorem takes_escape (plain : f.verbose = false) :
    Takes IsEscape (readEscape f) := by
  refine .of_cons nofun fun c =>
    Takes.imp (P := IsPlain) ?_ fun text kind => ⟨c, text, rfl, kind⟩
  simp only [readEscape]
  refine .ite (.error _) (.ite (takes_hex plain 2) (.ite (takes_hex plain 4)
    (.ite (takes_hex plain 8) (.ite (takes_property plain false)
      (.ite (takes_property plain true) (.ite ?_ ?_))))))
  · exact (takes_boundary plain).bind IsPlain.append fun a =>
      .pure .nil (Atom.anchor a)
  · split
    · exact .pure .nil _
    · exact .pure .nil _
    · exact .pure .nil _
    · exact .ite (.pure .nil _) (.error _)

/-! ## Bounds -/

theorem takes_count (plain : f.verbose = false) :
    Takes IsPlain (readCount f) := by
  have blanks := takes_dropWhile (p := isBlank) (forall_marks (by decide))
  have digits := takes_spanGaps plain isDecimal (forall_marks (by decide))
    fun cs => cs.length + 1
  have whole := blanks.bind IsPlain.append fun _ =>
      digits.bind IsPlain.append fun kept =>
    let digits := reversedDigits kept ++ []
    let n := digits.foldr (fun d n => 10 * n + d) 0
    Takes.ite (p := digits.isEmpty = true)
      (blanks.bind IsPlain.append fun _ => .pure .nil (none : Option Nat))
      (.ite (p := n < 0x100000000)
        (blanks.bind IsPlain.append fun _ => .pure .nil (some n))
        (.error .badCount))
  refine Eq.subst (motive := Takes IsPlain) (funext fun cs => ?_) whole
  simp only [readCount, readDigits_eq]
  rfl

theorem takes_upperEnd (n : Nat) (most : Option Nat) :
    Takes IsPlain (readUpperEnd n most) := by
  refine .of_cons nofun fun c => ?_
  by_cases close : c = '\x7d'
  · subst close
    refine Takes.behind (by decide) ?_
    cases most with
    | none => exact .error _
    | some m => exact .ite (.pure .nil _) (.error _)
  · have other (cs : List Char) : readUpperEnd n most (c :: cs)
      = .error .badCount := by simp [readUpperEnd, close]
    simp only [other]
    exact .error _

theorem takes_upper (plain : f.verbose = false) (n : Nat) :
    Takes IsPlain (readUpper f n) := by
  have bound :=
    (takes_count plain).bind IsPlain.append fun most => takes_upperEnd n most
  refine .choose '\x7d' ?_ (fun _ => rfl) (fun d cs other => ?_)
    (.behind (by decide) (.pure .nil (n, none))) bound
  · rfl
  · simp [readUpper, other]

theorem takes_behindLower (plain : f.verbose = false) (least : Option Nat) :
    Takes IsPlain (readBehindLower f least) := by
  refine .of_cons nofun fun c => ?_
  by_cases close : c = '\x7d'
  · subst close
    refine Takes.behind (by decide) ?_
    cases least with
    | none => exact .error _
    | some n => exact .pure .nil _
  by_cases comma : c = ','
  · subst comma
    refine Takes.behind (by decide) ?_
    cases least with
    | none => exact .error _
    | some n => exact (takes_upper plain n).behind_gap plain
  · have other (cs : List Char) : readBehindLower f least (c :: cs)
        = .error .badCount := by
      simp [readBehindLower, close, comma]
    simp only [other]
    exact .error _

theorem takes_boundPair (plain : f.verbose = false) :
    Takes IsPlain (readBoundPair f) := by
  rw [funext (readBoundPair_eq f)]
  exact ((takes_count plain).behind_gap plain).bind IsPlain.append fun least =>
    takes_behindLower plain least

theorem takes_lazy : Takes IsPlain fun cs => .ok (readLazy cs) := by
  have sign : Takes (fun text => IsPlain ('?' :: text)) fun cs =>
      .ok (true, cs) :=
    .behind (by decide) (.pure .nil true)
  refine .choose '?' rfl (fun _ => rfl) (fun d cs other => ?_) sign
    (.pure .nil false)
  simp [readLazy, other]

/-! ## Classes -/

/-- A character that is no backslash in front of a text in which backslashes
take characters along. -/
theorem Takes.paired_behind {α : Type} {read : ElementReader α} {c : Char}
    (plain : c ≠ '\\') (h : Takes Paired read) :
    Takes (fun text => Paired (c :: text)) read :=
  h.imp fun _ => .other plain

/-- What is read behind the rest of such a text. -/
theorem Takes.bind_behind {α β : Type}
    {read : ElementReader α} {next : α → ElementReader β}
    {c : Char} (first : Takes (fun text => Paired (c :: text)) read)
    (second : ∀ x, Takes Paired (next x)) :
    Takes (fun text => Paired (c :: text)) fun cs =>
      read cs >>= fun y => next y.1 y.2 :=
  first.bind (fun whole others => Paired.append whole others) second

theorem takes_negation (plain : f.verbose = false) :
    Takes Paired fun cs => .ok (negation f cs) := by
  have behind : Takes Paired fun cs => .ok (true, f.dropGap cs) :=
    (Takes.pure .nil true).behind_gap plain
  refine .choose '^' rfl (fun _ => rfl) (fun d cs other => ?_)
    (.paired_behind (by decide) behind) (.pure .nil false)
  simp [negation, other]

theorem takes_hyphens (plain : f.verbose = false) :
    Takes Paired fun cs => .ok (readHyphens f (cs.length + 1) cs) := by
  simp only [readHyphens_eq]
  have hyphens := takes_spanGaps plain
    (· == '-') (forall_marks (by decide)) fun cs => cs.length + 1
  exact hyphens.bind (fun kind none => kind.paired.append none) fun hyphens =>
    .pure .nil !hyphens.isEmpty

theorem takes_firstBracket (plain : f.verbose = false) :
    Takes Paired fun cs => .ok (firstBracket f cs) := by
  have behind : Takes Paired fun cs =>
      .ok (CharSet.single ']'.toNat, f.dropGap cs) :=
    (Takes.pure .nil _).behind_gap plain
  refine .choose ']' rfl (fun _ => rfl) (fun d cs other => ?_)
    (.paired_behind (by decide) behind) (.pure .nil .nothing)
  simp [firstBracket, other]

theorem takes_classStart (plain : f.verbose = false) : Takes Paired fun cs =>
    .ok (((readClassStart f cs).1, (readClassStart f cs).2.1),
        (readClassStart f cs).2.2) := by
  have gap : Takes Paired (readGap f) :=
    (takes_gap plain).imp fun _ => IsPlain.paired
  have whole := gap.bind Paired.append fun _ =>
      (takes_negation plain).bind Paired.append fun negated =>
    (takes_hyphens plain).bind Paired.append fun hyphens =>
      .ite (p := hyphens = true) (.pure .nil
        (negated, CharSet.single '-'.toNat)) ((takes_firstBracket plain).bind
        Paired.append fun set => .pure .nil (negated, set))
  refine Eq.subst (motive := Takes Paired) (funext fun cs => ?_) whole
  rw [readClassStart_eq]
  simp only [readGap, bind, Except.bind]
  split <;> rfl

theorem takes_classAtom (plain : f.verbose = false) (c : Char) :
    Takes (fun text => Paired (c :: text)) (readClassAtom f c) := by
  by_cases backslash : c = '\\'
  · subst backslash
    refine Takes.imp (P := IsEscape) (takes_escape plain) ?_
    rintro _ ⟨d, others, rfl, kind⟩
    exact .escape d kind.paired
  · rw [show readClassAtom f c = fun cs => .ok (.point c.toNat false, cs)
      from funext fun cs => if_neg backslash]
    exact .pure (.other backslash .nil) _

theorem takes_intervalBetween (first last : Atom) :
    Takes Paired (intervalBetween f first last) := by
  unfold intervalBetween
  split
  · next n rawN m rawM =>
    refine .ite ?_ (.error _)
    cases classPoint f n rawN with
    | error e => exact .error e
    | ok n =>
      cases classPoint f m rawM with
      | error e => exact .error e
      | ok m => exact .pure .nil (CharSet.interval n m)
  · exact .error _

theorem takes_interval (plain : f.verbose = false) (first : Atom) :
    Takes Paired (readInterval f first) := by
  have upper : Takes Paired (readUpperMember f first) := .of_cons nofun fun d =>
    (takes_classAtom plain d).bind_behind fun last =>
      takes_intervalBetween first last
  exact upper.behind_gap plain

theorem takes_lone (plain : f.verbose = false) (first : Atom) :
    Takes Paired (readLone f first) := by
  cases first with
  | anchor => exact .error _
  | set s => exact (Takes.pure .nil s).behind_gap plain
  | point n raw =>
    unfold readLone
    dsimp only
    cases classPoint f n raw with
    | error e => exact .error e
    | ok n => exact (Takes.pure .nil (CharSet.single n)).behind_gap plain

theorem takes_classItem (plain : f.verbose = false) (c : Char) :
    Takes (fun text => Paired (c :: text)) (readClassItem f c) := by
  rw [readClassItem_eq]
  refine (takes_classAtom plain c).bind_behind fun first => ?_
  intro cs set rest ok
  unfold readBehindMember at ok
  rw [f.dropGap_eq_self plain] at ok
  split at ok
  · cases ok
  · split at ok
    · exact takes_lone plain first ok
    · obtain ⟨text, rfl, kind⟩ := takes_interval plain first ok
      exact ⟨'-' :: text, rfl, .other (by decide) kind⟩
  · exact takes_lone plain first ok

theorem takes_members (plain : f.verbose = false) (stack : List ClassFrame)
    (set : CharSet) (c : Char) :
    Takes (fun text => Paired (c :: text)) (readMembers f stack set c) := by
  have item := (takes_classItem plain c).bind_behind fun item =>
    .pure .nil (ClassTurn.inside stack (.union set item))
  intro cs turn rest ok
  unfold readMembers at ok
  split at ok
  · next op found twice =>
    obtain ⟨cs, rfl⟩ := List.head?_eq_some_iff.mp (beq_iff_eq.mp twice)
    cases ok
    have other : c ≠ '\\' := by
      rintro rfl
      cases found
    exact ⟨[c], rfl, .other other (.other other .nil)⟩
  · exact item ok

theorem exists_of_namedClass? {negated : Bool} {cs rest : List Char}
    {s : CharSet} (found : namedClass? f negated cs = some (s, rest)) :
    ∃ text, cs = text ++ rest ∧ Paired text := by
  have plain : ∀ entry ∈ CharSet.asciiClasses, '\\' ∉ entry.1.toList := by
    decide +kernel
  unfold namedClass? at found
  split at found
  · next rest' here =>
    obtain ⟨_, named, same⟩ := Option.map_eq_some_iff.mp found
    cases same
    obtain ⟨_, there, -⟩ := Option.map_eq_some_iff.mp named
    obtain ⟨before, behind, split, -⟩ := List.lookup_eq_some_iff.mp there
    have name : Paired (cs.takeWhile (· != ':')) := paired_of_forall
        fun c mem same => by
      refine plain _
        (split ▸ List.mem_append_right before List.mem_cons_self) ?_
      rw [String.toList_ofList]
      exact same ▸ mem
    refine ⟨cs.takeWhile (· != ':') ++ [':', ']'], ?_,
      name.append (.other (by decide) (.other (by decide) .nil))⟩
    rw [List.append_assoc]
    exact (List.takeWhile_append_dropWhile.symm.trans (congrArg _ here))
  · cases found

theorem exists_of_readNamedClass? {cs rest : List Char} {s : CharSet}
    (found : readNamedClass? f cs = some (s, rest)) :
    ∃ text, cs = text ++ rest ∧ Paired text := by
  cases cs with
  | nil => cases found
  | cons c cs =>
    by_cases colon : c = ':'
    · subst colon
      cases cs with
      | nil => cases found
      | cons d cs =>
        by_cases negated : d = '^'
        · subst negated
          have behind : namedClass? f true cs = some (s, rest) := found
          obtain ⟨text, rfl, kind⟩ := exists_of_namedClass? behind
          exact ⟨':' :: '^' :: text, rfl,
            .other (by decide) (.other (by decide) kind)⟩
        · rw [readNamedClass?_plain f negated] at found
          obtain ⟨text, same, kind⟩ := exists_of_namedClass? found
          exact ⟨':' :: text, congrArg (':' :: ·) same, .other (by decide) kind⟩
    · rw [readNamedClass?_other f colon] at found
      cases found

theorem takes_innerClass (plain : f.verbose = false) (stack : List ClassFrame)
    (set : CharSet) :
    Takes Paired (readInnerClass f stack set) := by
  intro cs turn rest ok
  unfold readInnerClass at ok
  split at ok
  · next found =>
    cases ok
    split at found
    · cases found
    · exact exists_of_readNamedClass? found
  · cases ok
    exact takes_classStart plain rfl

theorem takes_classElement (plain : f.verbose = false) (stack : List ClassFrame)
    (set : CharSet) (c : Char) :
    Takes (fun text => Paired (c :: text))
      (readClassElement f stack set c) := by
  intro cs turn rest ok
  unfold readClassElement at ok
  split at ok
  · next opening =>
      exact (takes_innerClass plain stack set).paired_behind
        (opening ▸ by decide) ok
  · split at ok
    · next closing =>
      obtain rfl := readClassEnd_rest f stack set ok
      exact ⟨[], rfl, .other (closing ▸ by decide) .nil⟩
    · exact takes_members plain stack set c ok

/-- Whether a text ends with a bracket and every backslash in front of it takes
a character along. -/
def IsClosed (text : List Char) : Prop :=
  ∃ inside, text = inside ++ [']'] ∧ Paired inside

theorem takes_classFrom (plain : f.verbose = false) (stack : List ClassFrame)
    (set : CharSet) :
    Takes IsClosed (readClassFrom f stack set 0) := by
  intro cs s rest ok
  induction length : cs.length using Nat.strongRecOn
      generalizing stack set cs with
  | ind n ih =>
    cases cs with
    | nil => cases ok
    | cons c cs =>
      rw [readClassFrom_element f stack set (f.dropGap_eq_self plain (c :: cs))]
        at ok
      obtain ⟨⟨turn, middle⟩, read, there⟩ := bind_ok_iff.mp ok
      cases turn with
      | whole members =>
        obtain rfl := eq_bracket_of_whole f stack set read
        obtain rfl := readClassEnd_rest f stack set read
        cases there
        exact ⟨[']'], rfl, [], rfl, .nil⟩
      | inside stack' set' =>
        obtain ⟨text, rfl, kind⟩ := takes_classElement plain stack set c read
        have shorter : middle.length < n := by
          simp only [← length, List.length_cons, List.length_append]
          omega
        obtain ⟨_, rfl, inside, rfl, kind'⟩ :=
          ih middle.length shorter stack' set' there rfl
        refine ⟨c :: text ++ (inside ++ [']']), by simp, c :: text ++ inside,
          by simp, kind.append kind'⟩

theorem takes_class (plain : f.verbose = false) :
    Takes IsClosed (readClass f) :=
  takes_classFrom plain [] .nothing

end Lexigram.Pattern
