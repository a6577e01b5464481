import SmallLisp.Decimal.Positional
import SmallLisp.Number.Remainder
import SmallLisp.Source.Token
import SmallLisp.Text.Alphanumeric
import SmallLisp.Value.Basic

/-!
What the characters of an atom or of a string literal stand for.

An atom is tried as an integer, a real, a boolean, a marker and a symbol, in this order; the order
matters, because almost every atom has a character that makes it a symbol. A whole number outside
the range of integers is a real.
-/

namespace SmallLisp.Literal

/-- Whether a sign is negative, and the characters behind an optional sign. -/
def splitSign : List Char → Bool × List Char
  | '-' :: cs => (true, cs)
  | '+' :: cs => (false, cs)
  | cs => (false, cs)

def isDigits (cs : List Char) : Bool :=
  !cs.isEmpty && cs.all Char.isDigit

def digitsValue (cs : List Char) : Nat :=
  Nat.ofDigitChars 10 cs 0

/-- The integer that an optional sign and digits stand for, when it has 64 bits. -/
def integer? (cs : List Char) : Option Int64 :=
  let (negative, digits) := splitSign cs
  if isDigits digits then
    Number.word? (if negative then -(digitsValue digits : Int) else digitsValue digits)
  else none

/-- The digits before and behind the point of an unsigned real: either a whole number, or digits
behind a point with or without digits before it. -/
def realParts? (cs : List Char) : Option (List Char × List Char) :=
  match cs.dropWhile (· ≠ '.') with
  | [] => if isDigits cs then some (cs, []) else none
  | _ :: fraction =>
    let whole := cs.takeWhile (· ≠ '.')
    if whole.all Char.isDigit && isDigits fraction then some (whole, fraction) else none

/-- The real that an optional sign and an unsigned real stand for. -/
def real? (cs : List Char) : Option Float :=
  let (negative, body) := splitSign cs
  (realParts? body).map fun (whole, fraction) =>
    let magnitude := Decimal.nearest (digitsValue (whole ++ fraction)) fraction.length
    if negative then -magnitude else magnitude

/-- Whether `#:` and a letter, a digit or an underscore of ASCII stand somewhere in a row. -/
def isMarker : List Char → Bool
  | [] => false
  | c :: cs =>
    (match c, cs with
      | '#', ':' :: d :: _ => d.isAlphanum || d == '_'
      | _, _ => false) || isMarker cs

/-- The characters of which a symbol has at least one. -/
def isSymbolChar (c : Char) : Bool :=
  Text.isAlphanumeric c || c == '_' || c == '+' || c == '*' || c == '-' || c == '%' || c == '<' ||
    c == '>' || c == '='

def atom? (cs : List Char) : Option Value :=
  match integer? cs with
  | some n => some (.int n)
  | none =>
    match real? cs with
    | some x => some (.real x)
    | none =>
      if cs = "true".toList then some (.bool true)
      else if cs = "false".toList then some (.bool false)
      else if isMarker cs then some (.marker (String.ofList cs))
      else if cs.any isSymbolChar then some (.symbol (String.ofList cs))
      else none

/-- The characters inside a string literal with its escapes resolved: newline, tab, quote and
backslash have one, and a backslash before any other character stands for itself. -/
def unescape : List Char → List Char
  | [] => []
  | '\\' :: 'n' :: cs => '\n' :: unescape cs
  | '\\' :: 't' :: cs => '\t' :: unescape cs
  | '\\' :: '\"' :: cs => '\"' :: unescape cs
  | '\\' :: '\\' :: cs => '\\' :: unescape cs
  | '\\' :: c :: cs => '\\' :: c :: unescape cs
  | c :: cs => c :: unescape cs

/-- The text of a string literal: what stands between its two quotes, with the escapes resolved. -/
def string (lexeme : List Char) : Value :=
  .text (String.ofList (unescape (lexeme.drop 1).dropLast))

end SmallLisp.Literal
