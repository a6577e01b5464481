/-!
Blank characters, trimming, and the division of a text into lines.

A character is blank when it has the Unicode property White_Space; trimming removes blank
characters at both ends and nothing else. A line ends at its mark or at the end of the input, so
an unterminated last line counts and a terminated one is not followed by an empty line.
-/

namespace SmallLisp.Text

/-- The 25 characters with the Unicode property White_Space. -/
def isBlank (c : Char) : Bool :=
  let n := c.toNat
  (0x09 ≤ n && n ≤ 0x0d) || n == 0x20 || n == 0x85 || n == 0xa0 || n == 0x1680 ||
    (0x2000 ≤ n && n ≤ 0x200a) || n == 0x2028 || n == 0x2029 || n == 0x202f ||
    n == 0x205f || n == 0x3000

/-- Removes the blank characters at both ends. -/
def trimChars (cs : List Char) : List Char :=
  ((cs.dropWhile isBlank).reverse.dropWhile isBlank).reverse

def trim (s : String) : String :=
  String.ofList (trimChars s.toList)

/-- The pieces between the marks; nothing follows a mark that ends the input. -/
def linesAt {α : Type} [DecidableEq α] (mark : α) : List α → List (List α)
  | [] => []
  | a :: rest =>
    if a = mark then [] :: linesAt mark rest
    else
      match linesAt mark rest with
      | [] => [[a]]
      | line :: more => (a :: line) :: more

/-- The lines of a text, without their newlines. -/
def lines (s : String) : List String :=
  (linesAt '\n' s.toList).map String.ofList

end SmallLisp.Text
