/-!
White space, as Unicode defines it, and the comments that may stand where blanks
may.
-/

namespace Lexigram.Text

/-- The 25 characters with the property White_Space. -/
def isBlank (c : Char) : Bool :=
  let n := c.toNat
  (9 ≤ n && n ≤ 13) || n == 0x20 || n == 0x85 || n == 0xA0 || n == 0x1680
    || (0x2000 ≤ n && n ≤ 0x200A) || n == 0x2028 || n == 0x2029
    || n == 0x202F || n == 0x205F || n == 0x3000

/-- A blank that does not end the line. -/
def isSpace (c : Char) : Bool :=
  isBlank c && c != '\n'

/-- The blanks and comments that a text starts with, and what is left behind
them. A comment starts with `#` and ends with its line; `inComment` says whether
the text starts inside one. -/
def spanTrivia (inComment : Bool) : List Char → List Char × List Char
  | [] => ([], [])
  | c :: cs =>
    if inComment || isBlank c || c == '#' then
      let (trivia, rest) :=
        spanTrivia (if inComment then c != '\n' else c == '#') cs
      (c :: trivia, rest)
    else ([], c :: cs)

theorem spanTrivia_append (inComment : Bool) (cs : List Char) :
    (spanTrivia inComment cs).1 ++ (spanTrivia inComment cs).2 = cs := by
  induction cs generalizing inComment with
  | nil => rfl
  | cons c cs ih =>
    rw [spanTrivia]
    split
    · exact congrArg (c :: ·) (ih _)
    · rfl

theorem length_spanTrivia_le (inComment : Bool) (cs : List Char) :
    (spanTrivia inComment cs).2.length ≤ cs.length := by
  have := congrArg List.length (spanTrivia_append inComment cs)
  rw [List.length_append] at this
  omega

end Lexigram.Text
