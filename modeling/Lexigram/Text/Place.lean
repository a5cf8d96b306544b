/-!
Places in a text: line and column, both counted from one, the column in
characters.
-/

namespace Lexigram.Text

/-- A line and a column. -/
structure Place where
  line : Nat
  column : Nat
  deriving Repr, DecidableEq

namespace Place

/-- Where a text starts. -/
def start : Place := ⟨1, 1⟩

/-- The place behind a character that stands at `p`. -/
def after (p : Place) (c : Char) : Place :=
  if c = '\n' then ⟨p.line + 1, 1⟩ else ⟨p.line, p.column + 1⟩

/-- The place behind a text that starts at `p`. -/
def past (p : Place) (text : List Char) : Place :=
  text.foldl after p

@[simp] theorem past_nil (p : Place) : p.past [] = p := rfl

@[simp] theorem past_cons (p : Place) (c : Char) (text : List Char) :
    p.past (c :: text) = (p.after c).past text := rfl

theorem past_append (p : Place) (s t : List Char) :
    p.past (s ++ t) = (p.past s).past t :=
  List.foldl_append

/-- The place as it is written in messages. -/
def render (p : Place) : String :=
  toString p.line ++ ":" ++ toString p.column

end Place

end Lexigram.Text
