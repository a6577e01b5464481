import SmallLisp.Decimal.Shortest
import SmallLisp.Value.Basic

/-!
The written form of values.

Lists are written in parentheses with one space between elements, texts in double quotes with their
characters as they are, reals in positional notation with a point, and procedures by what they are.
-/

namespace SmallLisp.Value

/-- The decimal digits of a whole number, with a sign when it is negative. -/
def integerText (n : Int) : List Char :=
  if n < 0 then '-' :: Nat.toDigits 10 n.natAbs else Nat.toDigits 10 n.natAbs

mutual

def chars : Value → List Char
  | .int n => integerText n.toInt
  | .real x => Decimal.realText x
  | .bool true => "true".toList
  | .bool false => "false".toList
  | .marker name => name.toList
  | .text s => '\"' :: s.toList ++ ['\"']
  | .symbol name => name.toList
  | .list items => '(' :: itemsChars items ++ [')']
  | .closure .. => "function".toList
  | .builtin b => "#<builtin ".toList ++ b.name.toList ++ ['>']
  | .nil => "nil".toList

/-- The written forms of the elements of a list, with one space between them. -/
def itemsChars : List Value → List Char
  | [] => []
  | [v] => chars v
  | v :: w :: vs => chars v ++ ' ' :: itemsChars (w :: vs)

end

def written (v : Value) : String :=
  String.ofList v.chars

/-- The text that a value contributes to a text or a name: the characters of a text without quotes,
the written form of anything else, and nothing for a list. -/
def rawText? : Value → Option String
  | .text s => some s
  | .list _ => none
  | v => some v.written

end SmallLisp.Value
