/-!
Remainders of doubles and whole numbers.

The remainder of two doubles is exact: both are whole multiples of one power of two, so the
remainder of the multiples, which has the sign of the dividend, is itself a double. The modulus
moves a remainder of the wrong sign by one divisor, so that it is zero or has the sign of the
divisor.
-/

namespace SmallLisp.Number

open Float.Model in
/-- The double `± m * 2 ^ q`, rounded if it has to be. -/
def scaled (sign : UnpackedFloat.Sign) (m : Nat) (q : Int) : Float :=
  if m = 0 then .ofModel (.pack (.zero sign))
  else .ofModel (.pack (UnpackedFloat.round Format.binary64 sign m q))

/-- The remainder of `x` by `y` after division toward zero. -/
def remainder (x y : Float) : Float :=
  match x.toModel.unpack, y.toModel.unpack with
  | .finite sign m q _, .finite _ n r _ =>
    let low := min q r
    scaled sign ((m * Nat.pow 2 (q - low).toNat) % (n * Nat.pow 2 (r - low).toNat)) low
  | .zero _, .finite .. => x
  | .zero _, .infinity _ => x
  | .finite .., .infinity _ => x
  | _, _ => .ofModel (.pack .notANumber)

/-- The remainder of `x` by `y`, moved by `y` when its sign is not that of `y`. -/
def realModulus (x y : Float) : Float :=
  let r := remainder x y
  if r != 0.0 && (decide (r < 0.0) != decide (y < 0.0)) then r + y else r

/-- The remainder of `a` by `b` after division toward zero, moved by `b` when its sign is not that
of `b`. -/
def wholeModulus (a b : Int) : Int :=
  let r := a.tmod b
  if r ≠ 0 ∧ (decide (r < 0) != decide (b < 0)) then r + b else r

/-- The 64-bit integer of value `n`, if there is one. -/
def word? (n : Int) : Option Int64 :=
  if Int64.minValue.toInt ≤ n ∧ n ≤ Int64.maxValue.toInt then some (Int64.ofInt n) else none

theorem word?_toInt (n : Int64) : word? n.toInt = some n := by
  rw [word?, if_pos ⟨n.minValue_le_toInt, n.toInt_le⟩, Int64.ofInt_toInt]

theorem word?_eq_some_iff {v : Int} {n : Int64} : word? v = some n ↔ v = n.toInt := by
  constructor
  · intro found
    unfold word? at found
    split at found
    · next range =>
      cases found
      obtain ⟨least, most⟩ := range
      have below : v < Int64.maxValue.toInt + 1 := by omega
      exact (Int64.toInt_ofInt_of_le least (Int64.toInt_maxValue_add_one ▸ below)).symm
    · cases found
  · rintro rfl
    exact word?_toInt n

end SmallLisp.Number
