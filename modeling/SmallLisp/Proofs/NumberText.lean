import SmallLisp.Proofs.Doubles
import SmallLisp.Source.Literal
import SmallLisp.Value.Written

/-!
The written form of numbers reads back.

The digits of an integer are those of its magnitude (`Literal.integer?_integerText`). The positional
text of a decimal has the same significand and the same number of places as the decimal, so it reads
as the double that the decimal stands for; as the shortest decimal of a double stands for the double
itself, so does its text (`Decimal.realText_eq_positional`).
-/

open Float.Model.UnpackedFloat (Sign)

namespace SmallLisp

/-! ### Digits -/

theorem isDelimiter_of_isDigit {c : Char} (digit : c.isDigit = true) : isDelimiter c = false := by
  have range : 48 ≤ c.toNat ∧ c.toNat ≤ 57 := by
    simpa [Char.isDigit, UInt32.le_iff_toNat_le] using digit
  have other : ∀ d : Char, ¬ (48 ≤ d.toNat ∧ d.toNat ≤ 57) → c ≠ d := by
    rintro d apart rfl
    exact apart range
  have blank : Text.isBlank c = false := by
    simp only [Text.isBlank, Bool.or_eq_false_iff, Bool.and_eq_false_iff, decide_eq_false_iff_not,
      beq_eq_false_iff_ne]
    omega
  simp only [isDelimiter, blank, Bool.or_eq_false_iff, beq_eq_false_iff_ne]
  refine ⟨⟨⟨⟨⟨⟨⟨trivial, ?_⟩, ?_⟩, ?_⟩, ?_⟩, ?_⟩, ?_⟩, ?_⟩ <;> exact other _ (by decide)

theorem inside_of_all {cs : List Char} (all : cs.all (!isDelimiter ·) = true) :
    ∀ c ∈ cs, isDelimiter c = false := by
  simpa using all

namespace Literal

theorem isDigits_iff {cs : List Char} :
    isDigits cs = true ↔ cs ≠ [] ∧ ∀ c ∈ cs, c.isDigit = true := by
  simp [isDigits]

/-- Digits are not a sign. -/
theorem splitSign_digits {digits : List Char} (all : isDigits digits = true) (cs : List Char) :
    splitSign (digits ++ cs) = (false, digits ++ cs) := by
  obtain ⟨filled, digit⟩ := isDigits_iff.mp all
  cases digits with
  | nil => exact absurd rfl filled
  | cons c digits =>
    have first : c.isDigit = true := digit c List.mem_cons_self
    unfold splitSign
    split
    · next same =>
      cases same
      cases first
    · next same =>
      cases same
      cases first
    · rfl

theorem toDigits_isDigit (n : Nat) : ∀ c ∈ Nat.toDigits 10 n, c.isDigit = true :=
  fun _ member => Nat.isDigit_of_mem_toDigits (by omega) (by omega) member

theorem isDigits_toDigits (n : Nat) : isDigits (Nat.toDigits 10 n) = true :=
  isDigits_iff.mpr ⟨Nat.toDigits_ne_nil, toDigits_isDigit n⟩

/-- The digits of a number are read as the number. -/
theorem digitsValue_toDigits (n : Nat) : digitsValue (Nat.toDigits 10 n) = n :=
  Nat.ofDigitChars_ten_toDigits

/-! ### Integers -/

/-- The text of an integer is read as that integer. -/
theorem integer?_integerText (n : Int64) : integer? (Value.integerText n.toInt) = some n := by
  unfold Value.integerText
  split
  · next negative =>
    have magnitude : -(n.toInt.natAbs : Int) = n.toInt := by omega
    simp only [integer?, splitSign, isDigits_toDigits, digitsValue_toDigits, if_true, magnitude]
    exact Number.word?_toInt n
  · next nonnegative =>
    have magnitude : (n.toInt.natAbs : Int) = n.toInt := by omega
    have unsigned := splitSign_digits (isDigits_toDigits n.toInt.natAbs) []
    rw [List.append_nil] at unsigned
    simp only [integer?, unsigned, isDigits_toDigits, digitsValue_toDigits, if_true, magnitude]
    exact Number.word?_toInt n

/-- The text of an integer is one atom. -/
theorem integerText_inside (n : Int) :
    Value.integerText n ≠ [] ∧ ∀ c ∈ Value.integerText n, isDelimiter c = false := by
  have digits : ∀ c ∈ Nat.toDigits 10 n.natAbs, isDelimiter c = false :=
    fun c member => isDelimiter_of_isDigit (toDigits_isDigit _ c member)
  unfold Value.integerText
  split
  · exact ⟨List.cons_ne_nil _ _, List.forall_mem_cons.mpr ⟨by decide, digits⟩⟩
  · exact ⟨Nat.toDigits_ne_nil, digits⟩

/-! ### Reals -/

theorem padded_length (n : Nat) : ∀ width, (Decimal.padded width n).length = width := by
  intro width
  induction width generalizing n with
  | zero => rfl
  | succ width ih => simp [Decimal.padded, ih]

theorem padded_isDigit {width n : Nat} : ∀ c ∈ Decimal.padded width n, c.isDigit = true := by
  induction width generalizing n with
  | zero => simp [Decimal.padded]
  | succ width ih =>
    rw [Decimal.padded, List.forall_mem_append]
    exact ⟨ih, by simp [Nat.isDigit_digitChar, Nat.mod_lt]⟩

/-- Padded digits, read behind others, are the last digits of the number. -/
theorem ofDigitChars_padded (width n first : Nat) :
    Nat.ofDigitChars 10 (Decimal.padded width n) first = first * 10 ^ width + n % 10 ^ width := by
  induction width generalizing n with
  | zero => simp [Decimal.padded, Nat.mod_one]
  | succ width ih =>
    have digit : n % 10 < 10 := Nat.mod_lt _ (by omega)
    have divided : n % 10 ^ (width + 1) = n / 10 % 10 ^ width * 10 + n % 10 := by
      rw [Nat.pow_succ', Nat.mod_mul]
      omega
    rw [Decimal.padded, Nat.ofDigitChars_append, ih, divided,
      Nat.ofDigitChars_cons_digitChar_of_lt_ten digit, Nat.ofDigitChars_nil, Nat.pow_succ]
    ring

/-- The digits on both sides of the point are the significand. -/
theorem digitsValue_positional (d : Decimal) :
    digitsValue (Nat.toDigits 10 (d.significand / 10 ^ d.places) ++
      Decimal.padded d.places d.significand) = d.significand := by
  rw [digitsValue, Nat.ofDigitChars_append, ofDigitChars_padded, Nat.ofDigitChars_ten_toDigits,
    Nat.mul_comm, Nat.div_add_mod]

/-- Positional notation has the significand in its digits, cut at the point. -/
theorem realParts?_positional (d : Decimal) :
    realParts? d.positional = some (Nat.toDigits 10 (d.significand / 10 ^ d.places),
      Decimal.padded d.places d.significand) := by
  have digits := toDigits_isDigit (d.significand / 10 ^ d.places)
  have whole : ∀ c ∈ Nat.toDigits 10 (d.significand / 10 ^ d.places), decide (c ≠ '.') = true := by
    intro c member
    refine decide_eq_true fun same => ?_
    have := digits c member
    rw [same] at this
    cases this
  have fraction : isDigits (Decimal.padded d.places d.significand) = true := by
    refine isDigits_iff.mpr ⟨fun empty => ?_, padded_isDigit⟩
    have length := padded_length d.significand d.places
    rw [empty, List.length_nil, Decimal.places] at length
    omega
  rw [realParts?, Decimal.positional, Nat.pow_eq, List.dropWhile_append_of_pos whole,
    List.takeWhile_append_of_pos whole]
  simp only [List.dropWhile_cons, List.takeWhile_cons]
  simpa [fraction] using digits

/-- The positional text of a decimal, behind a sign or not, reads as the double that the decimal
stands for. -/
theorem real?_positional (s : Sign) (d : Decimal) :
    real? (Decimal.signText s ++ d.positional) = some (Double.signed s d.toFloat) := by
  have unsigned : splitSign d.positional = (false, d.positional) :=
    splitSign_digits (isDigits_toDigits _) _
  cases s with
  | negative =>
    simp only [real?, Decimal.signText, List.cons_append, List.nil_append, splitSign,
      realParts?_positional, Option.map_some, digitsValue_positional, padded_length]
    rfl
  | positive =>
    simp only [real?, Decimal.signText, List.nil_append, unsigned, realParts?_positional,
      Option.map_some, digitsValue_positional, padded_length]
    rfl

theorem mem_splitSign {c : Char} {cs : List Char} (member : c ∈ cs) (minus : c ≠ '-')
    (plus : c ≠ '+') : c ∈ (splitSign cs).2 := by
  unfold splitSign
  split <;> simp_all

/-- One character that is no digit makes the text no row of digits. -/
theorem isDigits_of_mem {c : Char} {cs : List Char} (member : c ∈ cs) (other : c.isDigit = false) :
    isDigits cs = false := by
  rw [← Bool.not_eq_true, isDigits_iff]
  rintro ⟨-, digit⟩
  rw [digit c member] at other
  cases other

/-- An integer has only a sign and digits. -/
theorem integer?_of_mem {c : Char} {cs : List Char} (member : c ∈ cs) (other : c.isDigit = false)
    (minus : c ≠ '-') (plus : c ≠ '+') : integer? cs = none := by
  simp [integer?, isDigits_of_mem (mem_splitSign member minus plus) other]

/-- A real has only a sign, digits and a point. -/
theorem real?_of_mem {c : Char} {cs : List Char} (member : c ∈ cs) (other : c.isDigit = false)
    (minus : c ≠ '-') (plus : c ≠ '+') (point : c ≠ '.') : real? cs = none := by
  have behind := mem_splitSign member minus plus
  have none : realParts? (splitSign cs).2 = none := by
    generalize (splitSign cs).2 = body at behind
    unfold realParts?
    split
    · simp [isDigits_of_mem behind other]
    · next d fraction divided =>
      have stop := List.head?_dropWhile_not (· ≠ '.') body
      rw [divided] at stop
      have first : d = '.' := by simpa using stop
      rw [← List.takeWhile_append_dropWhile (p := (· ≠ '.')) (l := body), divided, first] at behind
      rcases List.mem_append.mp behind with whole | fraction
      · have : (body.takeWhile (· ≠ '.')).all Char.isDigit = false :=
          List.all_eq_false.mpr ⟨c, whole, by simp [other]⟩
        simp only [this, Bool.false_and]
        rfl
      · have fraction := (List.mem_cons.mp fraction).resolve_left point
        simp [isDigits_of_mem fraction other]
  simp [real?, none]

end Literal

namespace Decimal

open Double

/-- The written form of a finite double is the positional text of a decimal that stands for it. -/
theorem realText_eq_positional {x : Float} (finite : x.isFinite = true) :
    ∃ s d, realText x = signText s ++ positional d ∧ signed s d.toFloat = x := by
  rcases eq_zero_or_ofCanonical finite with ⟨s, rfl⟩ | ⟨s, m, q, canonical, rfl⟩
  · refine ⟨s, ⟨0, 0⟩, ?_, ?_⟩
    · cases s <;> rfl
    · cases s <;> rfl
  · refine ⟨s, shortest (ofCanonical .positive canonical) m q, ?_, ?_⟩
    · rw [realText, textWith, unpack_ofCanonical]
      dsimp only
      rw [abs_ofCanonical]
    · rw [shortest_toFloat, signed_ofCanonical]

theorem positional_inside (s : Sign) (d : Decimal) :
    ∀ c ∈ signText s ++ d.positional, isDelimiter c = false := by
  have sign : ∀ c ∈ signText s, isDelimiter c = false := by
    cases s <;> exact inside_of_all rfl
  have whole : ∀ c ∈ Nat.toDigits 10 (d.significand / 10 ^ d.places), isDelimiter c = false :=
    fun c member => isDelimiter_of_isDigit (Literal.toDigits_isDigit _ c member)
  have fraction : ∀ c ∈ padded d.places d.significand, isDelimiter c = false :=
    fun c member => isDelimiter_of_isDigit (Literal.padded_isDigit c member)
  have point : isDelimiter '.' = false := by decide
  rw [positional]
  simp only [List.forall_mem_append, List.forall_mem_cons]
  exact ⟨sign, whole, point, fraction⟩

/-- The text of a finite double is one atom. -/
theorem realText_inside {x : Float} (finite : x.isFinite = true) :
    realText x ≠ [] ∧ ∀ c ∈ realText x, isDelimiter c = false := by
  obtain ⟨s, d, text, -⟩ := realText_eq_positional finite
  rw [text]
  exact ⟨by simp [positional], positional_inside s d⟩

end Decimal

end SmallLisp
