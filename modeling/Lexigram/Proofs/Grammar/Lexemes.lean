import Lexigram.Proofs.Grammar.Recognized

/-!
The lexemes that a text of the notation is made of, comments among them. A text
has at most one list of lexemes, so that a position between two lexemes is well
defined. What stands behind a position may be exchanged without a change to the
lexemes in front of it.
-/

namespace Lexigram

open Text

/-- The smallest parts of a text that mean something, and comments. -/
inductive Lexeme where
  | tag (mark : Mark) (name : String)
  | operator
  | literal (p : String)
  | opening
  | closing
  | suffix (m : Multiplicity)
  | bar
  | semicolon
  | comment
  deriving DecidableEq

namespace Lexeme

/-- Whether `cs` is the text of a lexeme that `rest` stands behind. An operator
is the longest one there, as all of them end in an equals sign. Only at the end
of a text may a comment do without the end of its line. -/
inductive IsText : Lexeme → List Char → List Char → Prop
  | tag {mark : Mark} {name : String} {cs rest : List Char} :
      IsTag mark name cs → IsText (.tag mark name) cs rest
  | operator {op rest : List Char} : op ∈ assignmentOperators →
      rest.head? ≠ some '=' → IsText .operator op rest
  | literal {p : String} {rest : List Char} : IsPatternText p.toList →
      IsText (.literal p) ('"' :: (p.toList ++ ['"'])) rest
  | opening {rest : List Char} : IsText .opening ['\x7b'] rest
  | closing {rest : List Char} : IsText .closing ['\x7d'] rest
  | suffix {m : Multiplicity} {c : Char} {rest : List Char} :
      Multiplicity.ofSuffix? c = some m →
        IsText (.suffix m) [c] rest
  | bar {rest : List Char} : IsText .bar ['|'] rest
  | semicolon {rest : List Char} : IsText .semicolon [';'] rest
  | comment {line rest : List Char} :
      '\n' ∉ line → IsText .comment ('#' :: (line ++ ['\n'])) rest
  | lastComment {line : List Char} :
      '\n' ∉ line → IsText .comment ('#' :: line) []

/-- The lexeme at the front of a text, and what stands behind it. -/
def read? (cs : List Char) : Option (Lexeme × List Char) :=
  match cs with
  | [] => none
  | c :: rest =>
    if isBlank c then none
    else if c = '<' then
      let (mark, atName) :=
        readMark (((Cursor.ofText cs).advance 1).skipWhile isSpace)
      (readName atName).toOption.map fun (name, next) =>
        (.tag mark name, next.rest)
    else if c = '"' then (readLiteral (.ofText cs)).toOption.map
      fun (p, next) => (.literal p, next.rest)
    else if c = '\x7b' then some (.opening, rest)
    else if c = '\x7d' then some (.closing, rest)
    else if c = '|' then some (.bar, rest)
    else if c = ';' then some (.semicolon, rest)
    else if c = '#' then some (.comment, (rest.dropWhile (· != '\n')).drop 1)
    else match Multiplicity.ofSuffix? c with
      | some m => some (.suffix m, rest)
      | none =>
        (readAssignment "" (.ofText cs)).toOption.map fun next =>
          (.operator, next.rest)

variable {e f : Lexeme} {es fs : List Lexeme} {cs ds rest : List Char}

/-! ## One lexeme -/

theorem read?_of_isBlank {c : Char} (blank : isBlank c = true)
    (cs : List Char) : read? (c :: cs) = none := by
  simp [read?, blank]

theorem read?_tag {mark : Mark} {name : String} (h : IsTag mark name cs)
    (rest : List Char) :
    read? (cs ++ rest) = some (.tag mark name, rest) := by
  obtain ⟨atName, place, marked, named⟩ := readName_of_isTag h .start rest
  have first : ∃ tail, cs ++ rest = '<' :: tail := by
    cases h
    exact ⟨_, rfl⟩
  obtain ⟨tail, eq⟩ := first
  rw [eq] at marked
  have notBlank : isBlank '<' = false := by decide
  simp only [eq, read?, notBlank, Bool.false_eq_true, if_false, if_true,
    Cursor.ofText, marked, named, Except.toOption, Option.map_some]

theorem read?_operator {op : List Char} (mem : op ∈ assignmentOperators)
    (behind : rest.head? ≠ some '=') :
    read? (op ++ rest) = some (.operator, rest) := by
  obtain ⟨place, assigned⟩ :=
    readAssignment_of_mem "" (List.forall_mem_nil _) mem .start behind
  simp only [List.nil_append] at assigned
  have first : ∃ c tail, op ++ rest = c :: tail ∧ (c = ':' ∨ c = '=') := by
    simp only [assignmentOperators, List.mem_cons,
      List.not_mem_nil, or_false] at mem
    rcases mem with rfl | rfl | rfl | rfl | rfl <;> simp
  obtain ⟨c, tail, eq, isFirst⟩ := first
  rw [eq] at assigned ⊢
  rcases isFirst with rfl | rfl <;> simp [read?, isBlank,
    Multiplicity.ofSuffix?, Cursor.ofText, assigned, Except.toOption]

theorem read?_literal {p : String} (h : IsPatternText p.toList)
    (rest : List Char) :
    read? ('"' :: (p.toList ++ '"' :: rest)) = some (.literal p, rest) := by
  obtain ⟨place, read⟩ := readLiteral_of_isPatternText h .start rest
  simp [read?, isBlank, Cursor.ofText, read, Except.toOption]

theorem dropWhile_line {line : List Char} (inLine : '\n' ∉ line)
    (rest : List Char) :
    (line ++ rest).dropWhile (· != '\n') = rest.dropWhile (· != '\n') := by
  refine List.dropWhile_append_of_pos fun c mem => bne_iff_ne.mpr ?_
  rintro rfl
  exact inLine mem

/-- A lexeme is what its text is read as, whatever stands behind. -/
theorem IsText.read?_eq (h : e.IsText cs rest) :
    read? (cs ++ rest) = some (e, rest) := by
  cases h with
  | tag tag => exact read?_tag tag rest
  | operator mem behind => exact read?_operator mem behind
  | literal pattern =>
    have read := read?_literal pattern rest
    simpa using read
  | opening => rfl
  | closing => rfl
  | suffix isSuffix =>
    unfold Multiplicity.ofSuffix? at isSuffix
    split at isSuffix
    · cases isSuffix; rfl
    · cases isSuffix; rfl
    · cases isSuffix; rfl
    · cases isSuffix
  | bar => rfl
  | semicolon => rfl
  | comment inLine =>
    have line := dropWhile_line inLine ('\n' :: rest)
    simp [read?, isBlank, line]
  | lastComment inLine =>
    have line := dropWhile_line inLine []
    rw [List.append_nil] at line
    simp [read?, isBlank, line]

/-- What stands behind a lexeme may be exchanged, but that no equals sign may
come to stand behind an operator, and nothing behind a comment without the end
of its line. -/
theorem IsText.congr (h : e.IsText cs rest) {rest' : List Char}
    (behind : rest.head? ≠ some '=' → rest'.head? ≠ some '=')
    (atEnd : rest = [] → rest' = []) :
    e.IsText cs rest' := by
  cases h with
  | tag tag => exact .tag tag
  | operator mem notEquals => exact .operator mem (behind notEquals)
  | literal pattern => exact .literal pattern
  | opening => exact .opening
  | closing => exact .closing
  | suffix isSuffix => exact .suffix isSuffix
  | bar => exact .bar
  | semicolon => exact .semicolon
  | comment inLine => exact .comment inLine
  | lastComment inLine => exact atEnd rfl ▸ .lastComment inLine

end Lexeme

/-! ## Lexemes in sequence -/

/-- Whether a text, up to what stands behind, is lexemes with blanks before,
between and behind them. -/
inductive Lexes : List Lexeme → List Char → List Char → Prop
  | nil {rest : List Char} : Lexes [] rest rest
  | blank {es : List Lexeme} {c : Char} {cs rest : List Char} :
      isBlank c = true → Lexes es cs rest →
        Lexes es (c :: cs) rest
  | cons {e : Lexeme} {es : List Lexeme} {text cs rest : List Char} :
      e.IsText text cs → Lexes es cs rest →
        Lexes (e :: es) (text ++ cs) rest

namespace Lexes

variable {e : Lexeme} {es fs : List Lexeme} {text mid rest : List Char}

theorem trans (first : Lexes es text mid) (second : Lexes fs mid rest) :
    Lexes (es ++ fs) text rest := by
  induction first with
  | nil => exact second
  | blank blank _ ih => exact .blank blank (ih second)
  | cons isText _ ih => exact .cons isText (ih second)

theorem blanks_append {blanks : List Char}
    (all : ∀ c ∈ blanks, isBlank c = true) (h : Lexes es text rest) :
    Lexes es (blanks ++ text) rest := by
  induction blanks with
  | nil => exact h
  | cons c blanks ih =>
    rw [List.forall_mem_cons] at all
    exact .blank all.1 (ih all.2)

/-- A text that is one lexeme. -/
theorem single (h : e.IsText text rest) : Lexes [e] (text ++ rest) rest :=
  .cons h .nil

theorem nil_inv (h : Lexes [] text rest) :
    ∃ blanks, text = blanks ++ rest ∧ ∀ c ∈ blanks, isBlank c = true := by
  generalize none : [] = es at h
  induction h with
  | nil => exact ⟨[], rfl, List.forall_mem_nil _⟩
  | @blank _ c _ _ blank _ ih =>
    obtain ⟨blanks, rfl, all⟩ := ih none
    exact ⟨c :: blanks, rfl, List.forall_mem_cons.mpr ⟨blank, all⟩⟩
  | cons => cases none

theorem cons_inv (h : Lexes (e :: es) text rest) :
    ∃ blanks cs behind, text = blanks ++ (cs ++ behind)
      ∧ (∀ c ∈ blanks, isBlank c = true) ∧ e.IsText cs behind
      ∧ Lexes es behind rest := by
  generalize some : e :: es = all at h
  induction h with
  | nil => cases some
  | @blank _ c _ _ blank _ ih =>
    obtain ⟨blanks, cs, behind, rfl, all, isText, others⟩ := ih some
    exact ⟨c :: blanks, cs, behind, rfl, List.forall_mem_cons.mpr ⟨blank, all⟩,
      isText, others⟩
  | cons isText others _ =>
    cases some
    exact ⟨[], _, _, rfl, List.forall_mem_nil _, isText, others⟩

theorem append_inv (h : Lexes (es ++ fs) text rest) :
    ∃ mid, Lexes es text mid ∧ Lexes fs mid rest := by
  induction es generalizing text with
  | nil => exact ⟨text, .nil, h⟩
  | cons e es ih =>
    obtain ⟨blanks, cs, behind, rfl, all, isText, others⟩ := h.cons_inv
    obtain ⟨mid, first, second⟩ := ih others
    exact ⟨mid, (cons isText first).blanks_append all, second⟩

/-- A whole text has one list of lexemes: the first is the one that is read
there. -/
theorem unique (h : Lexes es text []) (h' : Lexes fs text []) : es = fs := by
  generalize whole : [] = rest at h
  induction h generalizing fs with
  | nil =>
    subst whole
    generalize empty : [] = text at h'
    cases h' with
    | nil => rfl
    | blank => cases empty
    | cons isText => exact absurd (empty ▸ isText.read?_eq) nofun
  | @blank es c cs rest blank _ ih =>
    generalize same : c :: cs = text at h'
    cases h' with
    | nil => cases same
    | blank _ others =>
      cases same
      exact ih others whole
    | cons isText =>
      have read := isText.read?_eq
      rw [← same, Lexeme.read?_of_isBlank blank] at read
      cases read
  | @cons e es text cs rest isText _ ih =>
    have read := isText.read?_eq
    generalize text ++ cs = whole' at h' read
    cases h' with
    | nil => cases read
    | blank blank =>
      rw [Lexeme.read?_of_isBlank blank] at read
      cases read
    | cons isText' others =>
      have same := isText'.read?_eq.symm.trans read
      cases same
      rw [ih others whole]

/-- What stands behind lexemes may be exchanged, but that no equals sign may
come there, and nothing to the end of a text. -/
theorem exchange (h : Lexes es text rest) :
    ∃ front, text = front ++ rest ∧ ∀ rest', rest'.head? ≠ some '=' →
      (rest = [] → rest' = []) →
      Lexes es (front ++ rest') rest' := by
  induction h with
  | nil => exact ⟨[], rfl, fun _ _ _ => .nil⟩
  | @blank _ c _ _ blank _ ih =>
    obtain ⟨front, rfl, others⟩ := ih
    exact ⟨c :: front, rfl, fun rest' notEquals atEnd =>
      .blank blank (others rest' notEquals atEnd)⟩
  | @cons e es text cs rest isText _ ih =>
    obtain ⟨front, rfl, others⟩ := ih
    refine ⟨text ++ front, (List.append_assoc _ _ _).symm,
      fun rest' notEquals atEnd => ?_⟩
    rw [List.append_assoc]
    refine .cons (isText.congr ?_ ?_) (others rest' notEquals atEnd)
    · cases front with
      | nil => exact fun _ => notEquals
      | cons => exact id
    · intro empty
      obtain ⟨rfl, none⟩ := List.append_eq_nil_iff.mp empty
      exact atEnd none

theorem exists_append (h : Lexes es text rest) :
    ∃ front, text = front ++ rest := by
  obtain ⟨front, eq, -⟩ := h.exchange
  exact ⟨front, eq⟩

end Lexes

end Lexigram
