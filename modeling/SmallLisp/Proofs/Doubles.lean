import Mathlib
import SmallLisp.Decimal.Shortest

/-!
Doubles and the decimals that stand for them.

A finite double other than zero is `m * 2 ^ q` for a canonical pair `m`, `q`: packing the pair into
64 bits loses nothing (`Double.unpack_pack`), and all bits of finite numbers are packed in this way
(`Double.eq_pack_of_isFinite`). Division rounds nothing when the quotient is itself a double
(`Double.div_canonical`), and so a decimal that is exactly a double reads as this double, whether it
is computed from two doubles or from large whole numbers (`Double.nearest_eq`). The exact expansion
of a double therefore reads back, and with it the shortest decimal, which either has been tried or
is the expansion (`Double.shortest_toFloat`).
-/

open Float.Model (Format UnpackedFloat totalExponent)
open Float.Model.UnpackedFloat

namespace SmallLisp.Double

/-! ### The fields of 64 bits -/

/-- The three fields of a double determine its bits. -/
theorem packComponents_unpack (b : BitVec Format.binary64.numBits) :
    packComponents Format.binary64 (Sign.ofBitVec (unpackSign b)) (unpackExponent b)
      (unpackMantissa b) = b := by
  have sign : (Sign.ofBitVec (unpackSign b)).toBitVec = unpackSign b := by
    generalize unpackSign b = c
    revert c
    decide
  rw [packComponents, sign]
  refine BitVec.eq_of_getLsbD_eq fun i bound => ?_
  have bound : i < 64 := bound
  simp only [BitVec.getLsbD_append, unpackSign, unpackExponent, unpackMantissa,
    BitVec.getLsbD_cast, BitVec.getLsbD_extractLsb]
  split_ifs with low middle
  · simp [low]
  · rw [show 52 + (i - 52) = i by omega]
    simp [show i - 52 < 52 + 11 - 1 - 52 + 1 by omega]
  · rw [show 52 + 11 + (i - 52 - 11) = i by omega]
    simp [show i - 52 - 11 < 52 + 11 - (52 + 11) + 1 by omega]

theorem unpackSign_packComponents (s : Sign) (e : BitVec 11) (f : BitVec 52) :
    Sign.ofBitVec (unpackSign (packComponents Format.binary64 s e f)) = s := by
  have sign : unpackSign (packComponents Format.binary64 s e f) = s.toBitVec := by
    refine BitVec.eq_of_getLsbD_eq fun i bound => ?_
    have first : i = 0 := by omega
    subst first
    simp only [unpackSign, packComponents, BitVec.getLsbD_cast, BitVec.getLsbD_extractLsb,
      BitVec.getLsbD_append]
    simp
  rw [sign]
  cases s <;> rfl

theorem append_toNat (f : BitVec 52) : (1#1 ++ f).toNat = 2 ^ 52 + f.toNat := by
  rw [BitVec.toNat_append, ← Nat.shiftLeft_add_eq_or_of_lt f.isLt]
  rfl

/-- With an exponent field that is neither least nor greatest, a leading one is added to the
fraction. -/
theorem unpack_packComponents_normal {e : BitVec 11} {f : BitVec 52} (s : Sign)
    (bounded : e ≠ -1#11) (normal : e ≠ 0#11) (pos : 0 < 2 ^ 52 + f.toNat) :
    unpack Format.binary64 (packComponents Format.binary64 s e f) =
      .finite s (2 ^ 52 + f.toNat) (e.toNat - 1075) pos := by
  unfold unpack
  simp only [unpackMantissa_packComponents, unpackExponent_packComponents,
    unpackSign_packComponents, bounded, normal, if_false, append_toNat]
  rfl

/-- With the least exponent field, the fraction is the whole magnitude. -/
theorem unpack_packComponents_subnormal {f : BitVec 52} (s : Sign) (pos : 0 < f.toNat) :
    unpack Format.binary64 (packComponents Format.binary64 s 0#11 f) =
      .finite s f.toNat (-1074) pos := by
  have filled : f ≠ 0#52 := by
    rintro rfl
    cases pos
  have bounded : (0#11) ≠ -1#11 := by decide
  unfold unpack
  simp only [unpackMantissa_packComponents, unpackExponent_packComponents,
    unpackSign_packComponents, bounded, if_true, if_false, filled, dite_false]
  rfl

/-- The greatest exponent field is kept for infinity and for what is no number. -/
theorem unpack_packComponents_top (s : Sign) (f : BitVec 52) :
    unpack Format.binary64 (packComponents Format.binary64 s (-1#11) f) =
      if f = 0#52 then .infinity s else .notANumber := by
  unfold unpack
  simp only [unpackMantissa_packComponents, unpackExponent_packComponents,
    unpackSign_packComponents, if_true]

/-! ### Canonical doubles -/

/-- The number `m * 2 ^ q` as doubles keep it: with 53 bits, or fewer and the least exponent. -/
structure Canonical (m : Nat) (q : Int) : Prop where
  pos : 0 < m
  lt : m < 2 ^ 53
  least : -1074 ≤ q
  most : q ≤ 971
  full : 2 ^ 52 ≤ m ∨ q = -1074

def exponentField (m : Nat) (q : Int) : BitVec 11 :=
  if 2 ^ 52 ≤ m then BitVec.ofNat 11 (q + 1075).toNat else 0#11

variable {m : Nat} {q : Int}

theorem pack_finite (canonical : Canonical m q) (s : Sign) :
    pack Format.binary64 (.finite s m q canonical.pos) =
      packComponents Format.binary64 s (exponentField m q) (BitVec.ofNat 52 m) := by
  obtain ⟨pos, lt, least, most, full⟩ := canonical
  have biased :
      (q + (Format.binary64.exponentBias : Int) + (52 : Nat)).toNat = (q + 1075).toNat := by
    congr 1
    simp only [Format.exponentBias]
    omega
  have inRange : ¬ 2 ^ 11 ≤ (q + 1075).toNat + 1 := by omega
  simp only [pack, biased, inRange, if_false, exponentField]
  by_cases normal : 2 ^ 52 ≤ m
  · have bits : m.log2 = 52 := (Nat.log2_eq_iff pos.ne').mpr ⟨normal, lt⟩
    simp only [bits, normal, Format.mantissaBits, if_true]
  · have bits : m.log2 < 52 := (Nat.log2_lt pos.ne').mpr (by omega)
    have other : ¬ m.log2 + 1 = Format.binary64.mantissaBits := by
      simp only [Format.mantissaBits]
      omega
    simp only [other, normal, if_false]

/-- The fields of a canonical magnitude are read back as that magnitude. -/
theorem unpack_fields (canonical : Canonical m q) (s : Sign) :
    unpack Format.binary64
        (packComponents Format.binary64 s (exponentField m q) (BitVec.ofNat 52 m)) =
      .finite s m q canonical.pos := by
  obtain ⟨pos, lt, least, most, full⟩ := canonical
  unfold exponentField
  by_cases normal : 2 ^ 52 ≤ m
  · have field : (BitVec.ofNat 52 m).toNat = m - 2 ^ 52 := by
      rw [BitVec.toNat_ofNat]
      omega
    have exponent : (BitVec.ofNat 11 (q + 1075).toNat).toNat = (q + 1075).toNat := by
      rw [BitVec.toNat_ofNat]
      omega
    have bounded : BitVec.ofNat 11 (q + 1075).toNat ≠ -1#11 := by
      intro same
      have := congrArg BitVec.toNat same
      rw [exponent, show (-1#11).toNat = 2047 from rfl] at this
      omega
    have nonzero : BitVec.ofNat 11 (q + 1075).toNat ≠ 0#11 := by
      intro same
      have := congrArg BitVec.toNat same
      rw [exponent, show (0#11).toNat = 0 from rfl] at this
      omega
    rw [if_pos normal, unpack_packComponents_normal s bounded nonzero (by omega)]
    congr 1
    · omega
    · omega
  · have field : (BitVec.ofNat 52 m).toNat = m := by
      rw [BitVec.toNat_ofNat]
      omega
    rw [if_neg normal, unpack_packComponents_subnormal s (by omega)]
    congr 1
    omega

/-- A canonical number is not changed by being packed. -/
theorem unpack_pack (canonical : Canonical m q) (s : Sign) :
    unpack Format.binary64 (pack Format.binary64 (.finite s m q canonical.pos)) =
      .finite s m q canonical.pos := by
  rw [pack_finite canonical, unpack_fields canonical]

/-- Bits that stand for a finite number are packed from a zero or from a canonical number. -/
theorem eq_pack_of_isFinite {b : BitVec Format.binary64.numBits}
    (finite : (unpack Format.binary64 b).isFinite = true) :
    (∃ s, b = pack Format.binary64 (.zero s)) ∨
      ∃ s m q, ∃ canonical : Canonical m q,
        b = pack Format.binary64 (.finite s m q canonical.pos) := by
  have whole := packComponents_unpack b
  generalize Sign.ofBitVec (unpackSign b) = s at whole
  generalize unpackExponent b = e at whole
  generalize unpackMantissa b = f at whole
  subst whole
  have bound : f.toNat < 2 ^ 52 := f.isLt
  have bounded : e ≠ -1#11 := by
    rintro rfl
    rw [unpack_packComponents_top] at finite
    split at finite <;> cases finite
  by_cases bottom : e = 0#11
  · rw [bottom]
    by_cases empty : f = 0#52
    · rw [empty]
      exact .inl ⟨s, rfl⟩
    -- A subnormal number keeps its mantissa as it is.
    have pos : 0 < f.toNat := BitVec.toNat_pos_of_ne_zero empty
    have canonical : Canonical f.toNat (-1074) := ⟨pos, by omega, by omega, by omega, .inr rfl⟩
    refine .inr ⟨s, _, _, canonical, ?_⟩
    rw [pack_finite canonical, exponentField, if_neg (by omega), BitVec.ofNat_toNat]
    simp
  · have below : e.toNat < 2 ^ 11 := e.isLt
    have least : e.toNat ≠ 0 := fun zero => bottom (BitVec.eq_of_toNat_eq zero)
    have most : e.toNat ≠ 2047 := fun full => bounded (BitVec.eq_of_toNat_eq full)
    have canonical : Canonical (2 ^ 52 + f.toNat) (e.toNat - 1075) :=
      ⟨by omega, by omega, by omega, by omega, .inl (by omega)⟩
    have exponent : ((e.toNat : Int) - 1075 + 1075).toNat = e.toNat := by omega
    have mantissa : BitVec.ofNat 52 (2 ^ 52 + f.toNat) = f := by
      refine BitVec.eq_of_toNat_eq ?_
      rw [BitVec.toNat_ofNat]
      omega
    refine .inr ⟨s, _, _, canonical, ?_⟩
    rw [pack_finite canonical, exponentField, if_pos (by omega), exponent, mantissa,
      BitVec.ofNat_toNat]
    simp

/-- The double of this sign with a canonical magnitude. -/
def ofCanonical (s : Sign) (canonical : Canonical m q) : Float :=
  .ofModel (.pack (.finite s m q canonical.pos))

theorem unpack_ofCanonical (s : Sign) (canonical : Canonical m q) :
    (ofCanonical s canonical).toModel.unpack = .finite s m q canonical.pos :=
  unpack_pack canonical s

/-- The absolute value only drops the sign. -/
theorem abs_ofCanonical (s : Sign) (canonical : Canonical m q) :
    (ofCanonical s canonical).abs = ofCanonical .positive canonical := by
  show Float.ofModel (.pack (ofCanonical s canonical).toModel.unpack.abs) = _
  rw [unpack_ofCanonical]
  rfl

/-- The double with its sign turned, if the sign is negative. -/
def signed : Sign → Float → Float
  | .negative, x => -x
  | .positive, x => x

theorem signed_ofCanonical (s : Sign) (canonical : Canonical m q) :
    signed s (ofCanonical .positive canonical) = ofCanonical s canonical := by
  cases s with
  | positive => rfl
  | negative =>
    show Float.ofModel (.pack (ofCanonical .positive canonical).toModel.unpack.neg) = _
    rw [unpack_ofCanonical]
    rfl

/-- A finite double is a zero or canonical. -/
theorem eq_zero_or_ofCanonical {x : Float} (finite : x.isFinite = true) :
    (∃ s, x = .ofModel (.pack (.zero s))) ∨
      ∃ s m q, ∃ canonical : Canonical m q, x = ofCanonical s canonical := by
  obtain ⟨⟨⟨b⟩, valid⟩⟩ := x
  rcases eq_pack_of_isFinite finite with ⟨s, rfl⟩ | ⟨s, m, q, canonical, rfl⟩
  · exact .inl ⟨s, rfl⟩
  · exact .inr ⟨s, m, q, canonical, rfl⟩

/-! ### Rounding what needs none -/

theorem log2_mul_two_pow (pos : 0 < m) (k : Nat) : (m * 2 ^ k).log2 = m.log2 + k := by
  induction k with
  | zero => simp
  | succ k ih =>
    rw [Nat.pow_succ, ← Nat.mul_assoc, Nat.mul_comm, Nat.log2_two_mul (by positivity), ih,
      Nat.add_assoc]

/-- The exponent of a canonical number is the one that rounding aims at. -/
theorem Canonical.targetExponent (canonical : Canonical m q) :
    Format.binary64.targetExponent (totalExponent m q) = q := by
  obtain ⟨pos, lt, least, most, full⟩ := canonical
  have bits : m.log2 < 53 := (Nat.log2_lt pos.ne').mpr lt
  have filled : m.log2 = 52 ∨ q = -1074 := by
    refine full.imp_left fun low => ?_
    exact (Nat.log2_eq_iff pos.ne').mpr ⟨low, lt⟩
  simp only [Format.targetExponent, totalExponent, Format.mantissaBits, Format.minExponent]
  omega

/-- Zeros can be shifted out without loss. -/
theorem shiftRight_two_pow (m k : Nat) :
    ExtendedMantissa.ofMantissaAndAccuracy (m * 2 ^ k) .exact >>> k =
      ExtendedMantissa.ofMantissaAndAccuracy m .exact := by
  induction k generalizing m with
  | zero =>
    rw [Nat.pow_zero, Nat.mul_one]
    rfl
  | succ k ih =>
    have doubled : m * 2 ^ (k + 1) = 2 * m * 2 ^ k := by rw [Nat.pow_succ]; ring
    have step : ExtendedMantissa.ofMantissaAndAccuracy (2 * m * 2 ^ k) .exact >>> (k + 1) =
      (ExtendedMantissa.ofMantissaAndAccuracy (2 * m * 2 ^ k) .exact >>> k).shiftRightOne := rfl
    rw [doubled, step, ih]
    simp [ExtendedMantissa.ofMantissaAndAccuracy, ExtendedMantissa.shiftRightOne]

theorem shiftToTargetExponent_canonical (canonical : Canonical m q) {t : Int} (below : t ≤ q) :
    shiftToTargetExponent Format.binary64 (m * 2 ^ (q - t).toNat) t .exact =
      (ExtendedMantissa.ofMantissaAndAccuracy m .exact, q) := by
  have total : totalExponent (m * 2 ^ (q - t).toNat) t = totalExponent m q := by
    rw [totalExponent, totalExponent, log2_mul_two_pow canonical.pos]
    omega
  rw [shiftToTargetExponent, total, canonical.targetExponent, shiftToExponent, shiftRight_two_pow]
  exact Prod.ext rfl (by simp only; omega)

/-- Rounding gives a canonical number back, also when it is written with more trailing zero bits. -/
theorem roundWithAccuracy_canonical (canonical : Canonical m q) {t : Int} (below : t ≤ q)
    (s : Sign) : roundWithAccuracy Format.binary64 s (m * 2 ^ (q - t).toNat) t .exact =
      .finite s m q canonical.pos := by
  have again := shiftToTargetExponent_canonical canonical (Int.le_refl q)
  simp only [Int.sub_self, Int.toNat_zero, Nat.pow_zero, Nat.mul_one] at again
  have rounded : (ExtendedMantissa.ofMantissaAndAccuracy m .exact).roundedMantissa = m := rfl
  simp only [roundWithAccuracy, shiftToTargetExponent_canonical canonical below, rounded, again]
  exact dif_neg canonical.pos.ne'

theorem two_pow_toNat {k : Int} (nonneg : 0 ≤ k) : (2 : ℚ) ^ k.toNat = 2 ^ k := by
  rw [← zpow_natCast, Int.toNat_of_nonneg nonneg]

theorem two_zpow_log2_le (pos : 0 < m) (e : Int) :
    (2 : ℚ) ^ ((m.log2 : Int) + e) ≤ m * 2 ^ e := by
  rw [zpow_add₀ two_ne_zero, zpow_natCast]
  gcongr
  exact_mod_cast Nat.log2_self_le pos.ne'

theorem lt_two_zpow_log2 (e : Int) : (m : ℚ) * 2 ^ e < 2 ^ ((m.log2 : Int) + 1 + e) := by
  have : (2 : ℚ) ^ ((m.log2 : Int) + 1) = ((2 ^ (m.log2 + 1) : Nat) : ℚ) := by
    push_cast
    exact zpow_natCast 2 (m.log2 + 1)
  rw [zpow_add₀ two_ne_zero, this]
  gcongr
  exact_mod_cast Nat.lt_log2_self

/-- The exponent of a quotient is not below the difference of the exponents. -/
theorem totalExponent_sub_le {m₁ m₂ : Nat} {e₁ e₂ : Int} (pos₁ : 0 < m₁)
    (quotient : (m₁ : ℚ) * 2 ^ e₁ = m * 2 ^ q * (m₂ * 2 ^ e₂)) :
    totalExponent m₁ e₁ - totalExponent m₂ e₂ ≤ totalExponent m q := by
  have less : (2 : ℚ) ^ ((m₁.log2 : Int) + e₁) <
      2 ^ (((m.log2 : Int) + 1 + q) + ((m₂.log2 : Int) + 1 + e₂)) :=
    calc (2 : ℚ) ^ ((m₁.log2 : Int) + e₁) ≤ m₁ * 2 ^ e₁ := two_zpow_log2_le pos₁ e₁
      _ = m * 2 ^ q * (m₂ * 2 ^ e₂) := quotient
      _ < 2 ^ ((m.log2 : Int) + 1 + q) * 2 ^ ((m₂.log2 : Int) + 1 + e₂) := by
        gcongr <;> exact lt_two_zpow_log2 _
      _ = _ := (zpow_add₀ two_ne_zero _ _).symm
  have := (zpow_lt_zpow_iff_right₀ one_lt_two).mp less
  simp only [totalExponent]
  omega

/-- A quotient that is a canonical double is not rounded. -/
theorem div_canonical (canonical : Canonical m q) {m₁ m₂ : Nat} {e₁ e₂ : Int} (pos₁ : 0 < m₁)
    (pos₂ : 0 < m₂) (quotient : (m₁ : ℚ) * 2 ^ e₁ = m * 2 ^ q * (m₂ * 2 ^ e₂)) :
    div Format.binary64 (.finite .positive m₁ e₁ pos₁) (.finite .positive m₂ e₂ pos₂) =
      .finite .positive m q canonical.pos := by
  have total := totalExponent_sub_le pos₁ quotient
  have target : Format.binary64.targetExponent (totalExponent m₁ e₁ - totalExponent m₂ e₂) ≤ q := by
    rw [← canonical.targetExponent]
    simp only [Format.targetExponent]
    omega
  generalize bound : min (e₁ - e₂)
    (Format.binary64.targetExponent (totalExponent m₁ e₁ - totalExponent m₂ e₂)) = t
  -- The dividend is scaled down to the exponent `t`, at which the quotient is a whole number.
  have below : t ≤ q := by omega
  have shifted : m₁ * 2 ^ (e₁ - e₂ - t).toNat = m₂ * (m * 2 ^ (q - t).toNat) := by
    have left : (2 : ℚ) ^ (e₁ - e₂ - t).toNat = 2 ^ (e₁ - e₂ - t) := two_pow_toNat (by omega)
    have right : (2 : ℚ) ^ (q - t).toNat = 2 ^ (q - t) := two_pow_toNat (by omega)
    have : (m₁ : ℚ) * 2 ^ (e₁ - e₂ - t).toNat = m₂ * (m * 2 ^ (q - t).toNat) := by
      rw [left, right, zpow_sub₀ two_ne_zero, zpow_sub₀ two_ne_zero, zpow_sub₀ two_ne_zero]
      field_simp
      linear_combination quotient
    exact_mod_cast this
  simp only [div, divCore, bound, Nat.shiftLeft_eq, shifted, Nat.mul_div_cancel_left _ pos₂,
    Nat.mul_mod_right]
  exact roundWithAccuracy_canonical canonical below _

/-! ### Exact decimals -/

/-- The double is the positive number `r`. -/
def Means (x : Float) (r : ℚ) : Prop :=
  ∃ m q pos, x.toModel.unpack = .finite .positive m q pos ∧ (m : ℚ) * 2 ^ q = r

/-- A whole number of at most 53 bits becomes canonical by a shift. -/
theorem canonical_of_lt {n : Nat} (pos : 0 < n) (lt : n < 2 ^ 53) :
    Canonical (n * 2 ^ (52 - n.log2)) (n.log2 - 52) := by
  have bits : n.log2 < 53 := (Nat.log2_lt pos.ne').mpr lt
  have filled : (n * 2 ^ (52 - n.log2)).log2 = 52 := by
    rw [log2_mul_two_pow pos]
    omega
  have nonzero : n * 2 ^ (52 - n.log2) ≠ 0 := by positivity
  obtain ⟨low, high⟩ := (Nat.log2_eq_iff nonzero).mp filled
  exact ⟨Nat.pos_of_ne_zero nonzero, high, by omega, by omega, .inl low⟩

/-- A whole number of at most 53 bits is a double without rounding. -/
theorem ofNat_of_lt {n : Nat} (pos : 0 < n) (lt : n < 2 ^ 53) :
    UnpackedFloat.ofNat Format.binary64 n =
      .finite .positive (n * 2 ^ (52 - n.log2)) (n.log2 - 52) (canonical_of_lt pos lt).pos := by
  have bits : n.log2 < 53 := (Nat.log2_lt pos.ne').mpr lt
  have greater : compare (n : Int) 0 = .gt := Int.compare_eq_gt.mpr (by omega)
  have target : Format.binary64.targetExponent (totalExponent n 0) = (n.log2 : Int) - 52 := by
    simp only [Format.targetExponent, totalExponent, Format.mantissaBits, Format.minExponent]
    omega
  have scaled : (0 - ((n.log2 : Int) - 52)).toNat = 52 - n.log2 := by omega
  have exponent : (0 : Int) - (52 - n.log2 : Nat) = n.log2 - 52 := by omega
  simp only [UnpackedFloat.ofNat, UnpackedFloat.ofInt, UnpackedFloat.normalize, greater,
    UnpackedFloat.round, Int.toNat_natCast, target, decreaseExponent, Nat.shiftLeft_eq, scaled,
    exponent]
  simpa using roundWithAccuracy_canonical (canonical_of_lt pos lt) (Int.le_refl _) .positive

/-- A whole number below `2 ^ 53` is a double. -/
theorem means_natCast {n : Nat} (pos : 0 < n) (lt : n < 2 ^ 53) : Means n.toUInt64.toFloat n := by
  have bits : n.log2 < 53 := (Nat.log2_lt pos.ne').mpr lt
  have word : n.toUInt64.toNat = n := by
    rw [UInt64.toNat_ofNat']
    omega
  refine ⟨n * 2 ^ (52 - n.log2), n.log2 - 52, (canonical_of_lt pos lt).pos, ?_, ?_⟩
  · show unpack _ (pack Format.binary64 (UnpackedFloat.ofNat Format.binary64 n.toUInt64.toNat)) = _
    rw [word, ofNat_of_lt pos lt, unpack_pack (canonical_of_lt pos lt)]
  · have : ((n.log2 : Int) - 52) = -((52 - n.log2 : Nat) : Int) := by omega
    rw [this, zpow_neg, zpow_natCast]
    push_cast
    field_simp

def isPowerOfTen (x : Float) (e : Nat) : Bool :=
  match x.toModel.unpack with
  | .finite .positive m q _ => m * 2 ^ q.toNat == 10 ^ e * 2 ^ (-q).toNat
  | _ => false

theorem means_of_isPowerOfTen {x : Float} {e : Nat} (power : isPowerOfTen x e = true) :
    Means x (10 ^ e) := by
  unfold isPowerOfTen at power
  split at power
  · next m q pos unpacked =>
    refine ⟨m, q, pos, unpacked, ?_⟩
    have same : m * 2 ^ q.toNat = 10 ^ e * 2 ^ (-q).toNat := by simpa using power
    have same : (m : ℚ) * 2 ^ q.toNat = 10 ^ e * 2 ^ (-q).toNat := by exact_mod_cast same
    have split : (2 : ℚ) ^ q * 2 ^ (-q).toNat = 2 ^ q.toNat := by
      rw [← zpow_natCast, ← zpow_natCast, ← zpow_add₀ two_ne_zero]
      congr 1
      omega
    have pos : (0 : ℚ) < 2 ^ (-q).toNat := by positivity
    refine mul_right_cancel₀ pos.ne' ?_
    rw [mul_assoc, split, same]
  · cases power

/-- The table of powers of ten is exact. -/
theorem means_powerOfTen {e : Nat} (small : e ≤ 22)
    (bound : e < Float.exactlyRepresentablePowersOfTen.size) :
    Means Float.exactlyRepresentablePowersOfTen[e] (10 ^ e) := by
  have table : ∀ (e : Fin 23) (bound : e < Float.exactlyRepresentablePowersOfTen.size),
      isPowerOfTen Float.exactlyRepresentablePowersOfTen[e] e = true := by decide
  exact means_of_isPowerOfTen (table ⟨e, by omega⟩ bound)

/-- A quotient that is a double is computed exactly. -/
theorem Means.div {x y : Float} {r r' : ℚ} (left : Means x r) (right : Means y r')
    (canonical : Canonical m q) (quotient : r = m * 2 ^ q * r') :
    x / y = ofCanonical .positive canonical := by
  obtain ⟨m₁, e₁, pos₁, unpacked₁, rfl⟩ := left
  obtain ⟨m₂, e₂, pos₂, unpacked₂, rfl⟩ := right
  show Float.ofModel (.pack (UnpackedFloat.div _ x.toModel.unpack y.toModel.unpack)) = _
  rw [unpacked₁, unpacked₂, div_canonical canonical pos₁ pos₂ quotient]
  rfl

/-- A decimal whose value is a double is read as that double. -/
theorem ofScientific_canonical (canonical : Canonical m q) {significand places : Nat}
    (pos : 0 < significand) (exact : (significand : ℚ) = m * 2 ^ q * 10 ^ places)
    (some : 0 < places) (few : places ≤ 2048) :
    UnpackedFloat.ofScientific Format.binary64 significand (Int.negOfNat places) =
      .finite .positive m q canonical.pos := by
  have exponent : Int.negOfNat places = -places := Int.negOfNat_eq
  have above : ¬ (-(places : Int) > 2 ^ Format.binary64.exponentBits) := by
    simp only
    omega
  have below : ¬ (-(places : Int) < -(2 ^ Format.binary64.exponentBits + significand.log2)) := by
    simp only
    omega
  have negative : ¬ (0 : Int) ≤ -places := by omega
  have powers : (- -(places : Int)).toNat = places := by omega
  simp only [UnpackedFloat.ofScientific, exponent, pos.ne', above, below, negative, powers,
    dite_false, if_false]
  refine div_canonical canonical pos (by positivity) ?_
  push_cast
  simpa using exact

/-- A decimal that is exactly a double reads as this double. -/
theorem nearest_eq (canonical : Canonical m q) {significand places : Nat}
    (exact : (significand : ℚ) = m * 2 ^ q * 10 ^ places) (some : 0 < places)
    (few : places ≤ 2048) :
    Decimal.nearest significand places = ofCanonical .positive canonical := by
  have pos : 0 < significand := by
    have filled : (0 : ℚ) < m := by exact_mod_cast canonical.pos
    have : (0 : ℚ) < significand := by
      rw [exact]
      positivity
    exact_mod_cast this
  unfold Decimal.nearest Float.ofScientific
  -- Few digits are divided as doubles, many as whole numbers.
  split
  · next small =>
    exact (means_natCast pos small.1).div (means_powerOfTen small.2 _) canonical exact
  · show Float.ofModel (.pack (UnpackedFloat.ofScientific _ significand (Int.negOfNat places))) = _
    rw [ofScientific_canonical canonical pos exact some few]
    rfl

/-- All digits of a double read back. -/
theorem expansion_toFloat (canonical : Canonical m q) :
    (Decimal.expansion m q).toFloat = ofCanonical .positive canonical := by
  have least := canonical.least
  unfold Decimal.expansion
  simp only [Nat.pow_eq]
  split
  · next negative =>
    have places : Decimal.places ⟨m * 5 ^ (-q).toNat, q⟩ = (-q).toNat := by
      simp only [Decimal.places]
      omega
    have significand : Decimal.significand ⟨m * 5 ^ (-q).toNat, q⟩ = m * 5 ^ (-q).toNat := by
      simp only [Decimal.significand]
      rw [show (q + 1).toNat = 0 by omega]
      simp
    refine nearest_eq canonical ?_ (by omega) (by omega)
    rw [places, significand]
    have ten : (10 : ℚ) ^ (-q).toNat = 2 ^ (-q).toNat * 5 ^ (-q).toNat := by
      rw [← mul_pow]
      norm_num
    have unit : (2 : ℚ) ^ q * 2 ^ (-q).toNat = 1 := by
      rw [two_pow_toNat (by omega), ← zpow_add₀ two_ne_zero]
      simp
    push_cast
    rw [ten]
    linear_combination -(m : ℚ) * 5 ^ (-q).toNat * unit
  · next nonnegative =>
    refine nearest_eq canonical ?_ (by simp [Decimal.places]) (by simp [Decimal.places])
    simp only [Decimal.places, Decimal.significand, Nat.pow_eq]
    rw [← two_pow_toNat (by omega)]
    push_cast
    simp

/-- What is found on a grid has been tried, so it reads back. -/
theorem onGrid?_toFloat {x : Float} {numerator denominator : Nat} {exponent : Int} {d : Decimal}
    (found : Decimal.onGrid? x numerator denominator exponent = some d) : d.toFloat = x := by
  unfold Decimal.onGrid? at found
  dsimp only at found
  split_ifs at found with below both above
  · cases found
    exact both.1
  · cases found
    exact below
  · cases found
    exact above

/-- The shortest decimal of a positive double reads back as the double. -/
theorem shortest_toFloat (canonical : Canonical m q) :
    (Decimal.shortest (ofCanonical .positive canonical) m q).toFloat =
      ofCanonical .positive canonical := by
  unfold Decimal.shortest
  dsimp only
  cases found : List.findSome? _ _ with
  | none => exact expansion_toFloat canonical
  | some d =>
    obtain ⟨less, -, tried⟩ := List.exists_of_findSome?_eq_some found
    exact onGrid?_toFloat tried

end SmallLisp.Double
