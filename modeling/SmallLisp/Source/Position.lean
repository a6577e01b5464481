/-!
Positions in a source text.

A position counts bytes from the start of the text, lines from 1, and code points from 1 since the
last newline. Positions are carried forward over the characters that are passed, so a position is
`Position.start.after` of the text before it.
-/

namespace SmallLisp

/-- A place in a source text: byte offset from 0, line and column from 1. -/
structure Position where
  offset : Nat
  line : Nat
  column : Nat
deriving DecidableEq, Repr

namespace Position

def start : Position := ⟨0, 1, 1⟩

/-- The place behind the character `c` that stands at `p`. -/
def next (p : Position) (c : Char) : Position :=
  if c = '\n' then ⟨p.offset + c.utf8Size, p.line + 1, 1⟩
  else ⟨p.offset + c.utf8Size, p.line, p.column + 1⟩

/-- The place behind the text `cs` that stands at `p`. -/
def after (p : Position) (cs : List Char) : Position :=
  cs.foldl next p

@[simp] theorem after_nil (p : Position) : p.after [] = p := rfl

@[simp] theorem after_cons (p : Position) (c : Char) (cs : List Char) :
    p.after (c :: cs) = (p.next c).after cs := rfl

/-- Going over two texts in a row is going over one and then the other. -/
theorem after_append (p : Position) (as bs : List Char) :
    p.after (as ++ bs) = (p.after as).after bs := by
  simp [after, List.foldl_append]

end Position

/-- The line of a text with the given number, counted from 0, without its newline. -/
def sourceLine : Nat → List Char → List Char
  | 0, cs => cs.takeWhile (· ≠ '\n')
  | n + 1, cs => sourceLine n ((cs.dropWhile (· ≠ '\n')).drop 1)

end SmallLisp
