/-!
Decimal numbers and their positional text.

A `Decimal` is a coefficient times a power of ten. Its positional text has a point with at least
one digit on each side and never an exponent; `Decimal.toFloat` is the double that this text reads
as, since both go through the same whole number of the same number of places.
-/

namespace SmallLisp

/-- The number `coefficient * 10 ^ exponent`. -/
structure Decimal where
  coefficient : Nat
  exponent : Int
deriving DecidableEq, Repr

namespace Decimal

/-- How many digits stand after the point: at least one. -/
def places (d : Decimal) : Nat :=
  max 1 (-d.exponent).toNat

/-- The digits on both sides of the point, read as one whole number. -/
def significand (d : Decimal) : Nat :=
  d.coefficient * Nat.pow 10 (d.exponent + 1).toNat

/-- The double nearest to `significand / 10 ^ places`. -/
def nearest (significand places : Nat) : Float :=
  Float.ofScientific significand true places

def toFloat (d : Decimal) : Float :=
  nearest d.significand d.places

/-- The last `width` decimal digits of `n`, with leading zeros. -/
def padded : Nat → Nat → List Char
  | 0, _ => []
  | width + 1, n => padded width (n / 10) ++ [Nat.digitChar (n % 10)]

/-- Positional notation: `120.0`, `0.05`. -/
def positional (d : Decimal) : List Char :=
  Nat.toDigits 10 (d.significand / Nat.pow 10 d.places) ++ '.' :: padded d.places d.significand

/-- The same number without trailing zeros in its coefficient, of which the first argument bounds
the number. -/
def strip : Nat → Decimal → Decimal
  | 0, d => d
  | fuel + 1, d =>
    if d.coefficient ≠ 0 ∧ d.coefficient % 10 = 0 then
      strip fuel ⟨d.coefficient / 10, d.exponent + 1⟩
    else d

/-- Scientific notation: one digit before the point, no point when no digit follows it, and a bare
exponent: `1e16`, `1.5e-7`. -/
def scientific (d : Decimal) : List Char :=
  match Nat.toDigits 10 d.coefficient with
  | [] => []
  | first :: rest =>
    let exponent := d.exponent + rest.length
    let sign := if exponent < 0 then ['-'] else []
    first :: (if rest.isEmpty then [] else '.' :: rest) ++
      'e' :: sign ++ Nat.toDigits 10 exponent.natAbs

end Decimal

end SmallLisp
