import Mathlib.Data.List.Induction
import Lexigram.Proofs.Grammar.Recognized

/-!
Where a cursor is. A cursor that is moved, be it by a step or by the reading of
a part, comes to the place behind the text that it has passed (`Cursor.Leads`).
So the text in front of a cursor tells its place, which is the line and the
column, in characters, of an index into the text (`Place.past_start`).
-/

namespace Lexigram

/-! ## Places and indices -/

namespace Text.Place

/-- The place of the character with index `i`: one line more than there are line
ends in front of it, and one column more than there are characters behind the
last of them. -/
def ofIndex (text : List Char) (i : Nat) : Place :=
  ⟨(text.take i).count '\n' + 1,
    ((text.take i).reverse.takeWhile (· != '\n')).length + 1⟩

theorem past_start (cs : List Char) :
    start.past cs
      = ⟨cs.count '\n' + 1, (cs.reverse.takeWhile (· != '\n')).length + 1⟩ := by
  induction cs using List.reverseRecOn with
  | nil => rfl
  | append_singleton cs c ih =>
    rw [past_append, ih]
    by_cases last : c = '\n'
    · simp [after, last]
    · simp [after, last]

theorem past_start_eq_ofIndex (front rest : List Char) :
    start.past front = ofIndex (front ++ rest) front.length := by
  rw [past_start, ofIndex, List.take_left]

/-- A character leads to the next column, or to the first one of the next
line. -/
theorem line_add_column_past_le {p : Place} (first : 1 ≤ p.column)
    (cs : List Char) :
    (p.past cs).line + (p.past cs).column ≤ p.line + p.column + cs.length := by
  induction cs generalizing p with
  | nil => exact Nat.le_refl _
  | cons c cs ih =>
    rw [past_cons, List.length_cons]
    by_cases last : c = '\n'
    · have rest := ih (p := p.after c) (by simp [after, last])
      simp only [after, last, if_true] at rest ⊢
      omega
    · have rest := ih (p := p.after c) (by simp [after, last])
      simp only [after, last, if_false] at rest ⊢
      omega

theorem line_add_column_ofIndex_le {text : List Char} {i : Nat}
    (le : i ≤ text.length) :
    (ofIndex text i).line + (ofIndex text i).column ≤ text.length + 2 := by
  have bound :=
    line_add_column_past_le (p := start) (Nat.le_refl 1) (text.take i)
  rw [past_start, List.length_take] at bound
  simp only [start] at bound
  simp only [ofIndex]
  omega

end Text.Place

open Text

/-! ## Moves of a cursor -/

namespace Cursor

/-- Whether a cursor can be moved to another, which is then at the place behind
the text between them. -/
def Leads (cur next : Cursor) : Prop :=
  ∃ cs, cur.rest = cs ++ next.rest ∧ next.place = cur.place.past cs

variable {cur mid next : Cursor}

theorem Leads.refl (cur : Cursor) : cur.Leads cur :=
  ⟨[], rfl, rfl⟩

theorem Leads.trans (first : cur.Leads mid) (second : mid.Leads next) :
    cur.Leads next := by
  obtain ⟨cs, text, place⟩ := first
  obtain ⟨ds, text', place'⟩ := second
  refine ⟨cs ++ ds, ?_, ?_⟩
  · rw [text, text', List.append_assoc]
  · rw [place', place, Place.past_append]

/-- The place is that behind any text that is known to stand between the
cursors. -/
theorem Leads.place_eq (h : cur.Leads next) {cs : List Char}
    (text : cur.rest = cs ++ next.rest) :
    next.place = cur.place.past cs := by
  obtain ⟨ds, text', place⟩ := h
  rw [text] at text'
  rw [place, List.append_cancel_right text']

theorem leads_advance (cur : Cursor) (n : Nat) : cur.Leads (cur.advance n) :=
  ⟨cur.rest.take n, (List.take_append_drop n cur.rest).symm, rfl⟩

theorem leads_skipWhile (cur : Cursor) (p : Char → Bool) :
    cur.Leads (cur.skipWhile p) :=
  ⟨cur.rest.takeWhile p, List.takeWhile_append_dropWhile.symm, rfl⟩

theorem leads_skipTrivia (cur : Cursor) : cur.Leads cur.skipTrivia :=
  ⟨(spanTrivia false cur.rest).1, (spanTrivia_append false cur.rest).symm, rfl⟩

end Cursor

/-! ## Readers lead on -/

section Readers

variable {cur next : Cursor}

theorem leads_readName {name : String} (h : readName cur = .ok (name, next)) :
    cur.Leads next := by
  have close := (cur.leads_skipWhile isNameChar).trans
    ((cur.skipWhile isNameChar).leads_skipWhile isSpace)
  simp only [readName] at h
  split at h
  · cases h
  · split at h
    · cases h
    · cases h
      exact close.trans (Cursor.leads_advance _ 1)
  · cases h

theorem leads_readLiteralFrom {start p : Place}
    {escaped : Bool} {read cs : List Char} {text : String}
    (h : readLiteralFrom start escaped p read cs = .ok (text, next)) :
    Cursor.Leads ⟨cs, p⟩ next := by
  induction cs generalizing escaped p read with
  | nil => cases h
  | cons c cs ih =>
    have first : Cursor.Leads ⟨c :: cs, p⟩ ⟨cs, p.after c⟩ := ⟨[c], rfl, rfl⟩
    rw [readLiteralFrom] at h
    split at h
    · cases h
      exact first
    · exact first.trans (ih h)

theorem leads_readLiteral {text : String}
    (h : readLiteral cur = .ok (text, next)) : cur.Leads next :=
  (cur.leads_advance 1).trans (leads_readLiteralFrom h)

theorem leads_readSuffix (cur : Cursor) : cur.Leads (readSuffix cur).2 := by
  have behind :=
    (cur.leads_advance 1).trans ((cur.advance 1).leads_skipWhile isBlank)
  simp only [readSuffix]
  split
  · exact behind.trans (Cursor.leads_advance _ 1)
  · exact behind

theorem leads_readMark (cur : Cursor) : cur.Leads (readMark cur).2 := by
  unfold readMark
  split
  · exact cur.leads_advance 1
  · exact cur.leads_advance 1
  · exact .refl cur

theorem leads_readAssignment {name : String}
    (h : readAssignment name cur = .ok next) : cur.Leads next := by
  have blanks := cur.leads_skipWhile isBlank
  simp only [readAssignment] at h
  split at h
  · cases h
    exact blanks.trans (Cursor.leads_advance _ _)
  · cases h

theorem StepOutcome.leads {rule : String} {b : Body} {step : BodyStep}
    (h : StepOutcome rule b cur (.ok step)) :
    cur.Leads step.cursor := by
  have one := cur.leads_advance 1
  cases h with
  | reference _ name =>
    exact (one.trans (Cursor.leads_skipWhile _ isSpace)).trans
      (leads_readName name)
  | literal _ literal => exact leads_readLiteral literal
  | openGroup => exact one
  | bar => exact one
  | semicolon => exact one
  | closeGroup => exact leads_readSuffix cur

theorem leads_readElement {rule : String} {b : Body} {step : BodyStep}
    (h : readElement rule b cur = .ok step) :
    cur.Leads step.cursor := by
  have outcome := stepOutcome_readElement rule b cur
  rw [h] at outcome
  exact cur.leads_skipTrivia.trans outcome.leads

theorem leads_readBody {rule : String}
    {b : Body} {alternatives : List (Alternative String)}
    (h : readBody rule b cur = .ok (alternatives, next)) : cur.Leads next := by
  fun_induction readBody rule b cur with
  | case1 => cases h
  | case2 b cur alternatives' next' step =>
    cases h
    exact leads_readElement step
  | case3 b cur b' next' step shorter ih =>
    exact (leads_readElement step).trans (ih h)

theorem leads_readValue {key : String} {d : Definition}
    (h : readValue key cur = .ok (d, next)) : cur.Leads next := by
  simp only [readValue] at h
  split at h
  · cases literal : readLiteral cur.skipTrivia with
    | error e => rw [literal] at h; cases h
    | ok found =>
      have inside := cur.leads_skipTrivia.trans (leads_readLiteral literal)
      rw [literal] at h
      simp only [bind, Except.bind] at h
      split at h
      · cases h
        exact (inside.trans found.2.leads_skipTrivia).trans
          (Cursor.leads_advance _ 1)
      · cases h
  · cases h

theorem leads_readRule {known : List String}
    {start : Place} {name : String} {marked : Bool} {d : Definition}
    (h : readRule known start name marked cur = .ok (d, next)) :
    cur.Leads next := by
  unfold readRule at h
  split at h
  · cases h
  · cases body : readBody name .empty cur with
    | error e => rw [body] at h; cases h
    | ok found =>
      rw [body] at h
      simp only [bind, Except.bind] at h
      split at h
      · cases h
      · cases h
        exact leads_readBody body

theorem leads_readDefinition {known : List String} {d : Definition}
    (h : readDefinition known cur = .ok (d, next)) : cur.Leads next := by
  obtain ⟨mark, atName, name, behind, body, marked, named, assignment, h⟩ :=
    parts_of_readDefinition h
  have toName := leads_readMark ((cur.advance 1).skipWhile isSpace)
  rw [marked] at toName
  have toBody : cur.Leads body :=
    ((((cur.leads_advance 1).trans
      (Cursor.leads_skipWhile _ isSpace)).trans toName).trans
      (leads_readName named)).trans (leads_readAssignment assignment)
  split at h
  · exact toBody.trans (leads_readValue h)
  · exact toBody.trans (leads_readRule h)

end Readers

/-! ## Cursors in a text -/

/-- Whether a cursor stands in a text, behind `front`. -/
structure Cursor.Stands (text front : List Char) (cur : Cursor) : Prop where
  text_eq : text = front ++ cur.rest
  place_eq : cur.place = Place.start.past front

namespace Cursor.Stands

variable {text front cs : List Char} {cur next : Cursor}

theorem start (text : List Char) : (Cursor.ofText text).Stands text [] :=
  ⟨rfl, rfl⟩

theorem move (h : cur.Stands text front) (leads : cur.Leads next)
    (between : cur.rest = cs ++ next.rest) :
    next.Stands text (front ++ cs) := by
  constructor
  · rw [h.text_eq, between, List.append_assoc]
  · rw [leads.place_eq between, h.place_eq, Place.past_append]

theorem exists_move (h : cur.Stands text front) (leads : cur.Leads next) :
    ∃ front', next.Stands text front' := by
  obtain ⟨cs, between, -⟩ := id leads
  exact ⟨front ++ cs, h.move leads between⟩

/-- The cursor is moved over one character. -/
theorem advance (h : cur.Stands text front) {c : Char}
    (here : cur.rest = c :: cs) :
    (cur.advance 1).Stands text (front ++ [c]) :=
  h.move (cur.leads_advance 1) (by rw [here, rest_advance here]; rfl)

/-- The cursor is moved over blanks and comments in front of something. -/
theorem skipTrivia (h : cur.Stands text front) {c : Char}
    (here : cur.skipTrivia.rest = c :: cs) :
    ∃ trivia, cur.rest = trivia ++ cur.skipTrivia.rest ∧ IsTrivia trivia
      ∧ cur.skipTrivia.Stands text (front ++ trivia) := by
  obtain ⟨trivia, between, isTrivia⟩ := cur.exists_trivia here
  rw [← here] at between
  exact ⟨trivia, between, isTrivia, h.move cur.leads_skipTrivia between⟩

end Cursor.Stands

end Lexigram
