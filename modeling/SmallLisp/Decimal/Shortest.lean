import SmallLisp.Decimal.Positional

/-!
The shortest decimal that reads back as a given double.

The positive double `m * 2 ^ q` lies between two neighbours on every decimal grid. Of the grids with
1, 2, … 17 significant digits the first is taken on which a neighbour reads back; when both do, the
nearer one is taken, and the upper one on an exact tie. Seventeen digits always suffice; the exact
expansion stands behind them so that the search is total.
-/

namespace SmallLisp.Decimal

/-- The integer part of the decimal logarithm of the positive number `numerator / denominator`. -/
def magnitude (numerator denominator : Nat) : Int :=
  if denominator ≤ numerator then
    ((Nat.toDigits 10 (numerator / denominator)).length : Int) - 1
  else
    -((Nat.toDigits 10 ((denominator - 1) / numerator)).length : Int)

/-- The neighbours of `numerator / denominator` on the grid of multiples of `10 ^ exponent`, tried
against `x`. -/
def onGrid? (x : Float) (numerator denominator : Nat) (exponent : Int) : Option Decimal :=
  let scaled := numerator * Nat.pow 10 (-exponent).toNat
  let unit := denominator * Nat.pow 10 exponent.toNat
  let below := strip 17 ⟨scaled / unit, exponent⟩
  let above := strip 17 ⟨scaled / unit + 1, exponent⟩
  if below.toFloat = x then
    if above.toFloat = x ∧ unit ≤ 2 * (scaled % unit) then some above else some below
  else if above.toFloat = x then some above
  else none

/-- The decimal with all digits of `m * 2 ^ q`. -/
def expansion (m : Nat) (q : Int) : Decimal :=
  if q < 0 then ⟨m * Nat.pow 5 (-q).toNat, q⟩ else ⟨m * Nat.pow 2 q.toNat, 0⟩

/-- The shortest decimal that reads back as the positive double `x = m * 2 ^ q`. -/
def shortest (x : Float) (m : Nat) (q : Int) : Decimal :=
  let numerator := m * Nat.pow 2 q.toNat
  let denominator := Nat.pow 2 (-q).toNat
  let top := magnitude numerator denominator
  ((List.range 17).findSome? fun (less : Nat) =>
      onGrid? x numerator denominator (top - less)).getD (expansion m q)

def signText : Float.Model.UnpackedFloat.Sign → List Char
  | .negative => ['-']
  | .positive => []

/-- The text of a double: `NaN`, `inf`, `-0.0`, or the sign and the shortest digits that read back
in the notation that `write` gives them. -/
def textWith (write : Decimal → List Char) (x : Float) : List Char :=
  match x.toModel.unpack with
  | .notANumber => "NaN".toList
  | .infinity sign => signText sign ++ "inf".toList
  | .zero sign => signText sign ++ "0.0".toList
  | .finite sign m q _ => signText sign ++ write (shortest x.abs m q)

/-- The text of a double in positional notation, whatever its size. -/
def realText (x : Float) : List Char :=
  textWith positional x

/-- Positional notation from `10 ^ -4` up to `10 ^ 16`, scientific notation outside. -/
def balanced (d : Decimal) : List Char :=
  let digits := (Nat.toDigits 10 d.coefficient).length
  let top := d.exponent + digits - 1
  if -4 ≤ top ∧ top < 16 then d.positional else d.scientific

end SmallLisp.Decimal
