import SmallLisp.Source.Position

/-!
What can be wrong with a source text, and where.
-/

namespace SmallLisp

/-- The ways in which a source text holds no form at its head. -/
inductive SourceError where
  /-- A string literal that starts at `start` on the line `line` is never closed. -/
  | unterminatedString (start : Position) (line : List Char)
  /-- The text ends inside the list opened at `opening`. -/
  | unbalanced (opening : Position)
  /-- A closing parenthesis stands where a form has to. -/
  | unexpectedClosing (start : Position)
  /-- An atom that is no number, boolean, marker or symbol. -/
  | unknownAtom (lexeme : List Char) (start : Position)
  /-- The text ends behind a quotation mark. -/
  | endAfterMark (mark : List Char) (start : Position)
  /-- The text ends before any form. -/
  | endOfInput (start : Position)
deriving DecidableEq, Repr

end SmallLisp
