import Mathlib.Computability.RegularExpressions
import Mathlib.Data.Nat.Digits.Defs
import SmallLisp.Diagnostic
import SmallLisp.Proofs.RoundTrip

/-!
What an atom is, by the patterns it matches.

The patterns of numbers are regular expressions. An atom that matches the pattern of integers and
whose value has 64 bits is an integer (`Literal.integer?_eq_some_iff`); any other atom that matches
the pattern of reals is a real (`Literal.real?_eq_some_iff`), and this includes every integer that
is too large. What is left is a boolean, a marker, a symbol or an error, in this order
(`Literal.classified_atom?`); the reader goes by this wherever an atom stands (`atoms_classified`).
-/

namespace SmallLisp

namespace Literal

open RegularExpression

/-! ### Patterns -/

def oneOf (cs : List Char) : RegularExpression Char :=
  cs.foldr (fun c others => char c + others) 0

/-- `[0-9]` -/
def digitPattern : RegularExpression Char :=
  oneOf "0123456789".toList

/-- `[+-]?` -/
def signPattern : RegularExpression Char :=
  1 + oneOf ['+', '-']

/-- `[+-]?[0-9]+` -/
def integerPattern : RegularExpression Char :=
  signPattern * (digitPattern * digitPattern.star)

/-- `[-+]?[0-9]*\.?[0-9]+` -/
def realPattern : RegularExpression Char :=
  signPattern * (digitPattern.star * ((1 + char '.') * (digitPattern * digitPattern.star)))

/-- The pattern matches the texts of just one of the characters. -/
theorem mem_oneOf {cs x : List Char} : x ∈ (oneOf cs).matches' ↔ ∃ c ∈ cs, x = [c] := by
  induction cs with
  | nil => simp [oneOf, matches'_zero, Language.notMem_zero]
  | cons c cs ih =>
    have step : (oneOf (c :: cs)).matches' = {[c]} + (oneOf cs).matches' := rfl
    rw [step, Language.mem_add, ih, List.exists_mem_cons_iff]
    exact Iff.rfl

theorem isDigit_iff {c : Char} : c.isDigit = true ↔ c ∈ "0123456789".toList := by
  constructor
  · intro digit
    have range : 48 ≤ c.toNat ∧ c.toNat ≤ 57 := by
      simpa [Char.isDigit, UInt32.le_iff_toNat_le] using digit
    obtain ⟨low, high⟩ := range
    rw [← Char.ofNat_toNat c]
    interval_cases c.toNat <;> decide
  · intro member
    have all : "0123456789".toList.all Char.isDigit = true := rfl
    exact List.all_eq_true.mp all c member

theorem mem_digitPattern {x : List Char} :
    x ∈ digitPattern.matches' ↔ ∃ c, c.isDigit = true ∧ x = [c] := by
  simp only [digitPattern, mem_oneOf, isDigit_iff]

/-- `[0-9]*` -/
theorem mem_star_digitPattern {x : List Char} :
    x ∈ digitPattern.star.matches' ↔ ∀ c ∈ x, c.isDigit = true := by
  rw [matches'_star, Language.mem_kstar]
  constructor
  · rintro ⟨pieces, rfl, single⟩ c member
    obtain ⟨piece, inside, here⟩ := List.mem_flatten.mp member
    obtain ⟨d, digit, rfl⟩ := mem_digitPattern.mp (single piece inside)
    rw [List.mem_singleton.mp here]
    exact digit
  · intro digits
    refine ⟨x.map fun c => [c], (List.flatMap_singleton' x).symm, fun piece member => ?_⟩
    obtain ⟨c, inside, rfl⟩ := List.mem_map.mp member
    exact mem_digitPattern.mpr ⟨c, digits c inside, rfl⟩

/-- `[0-9]+` -/
theorem mem_digitPattern_mul {x : List Char} :
    x ∈ (digitPattern * digitPattern.star).matches' ↔ isDigits x = true := by
  rw [matches'_mul, Language.mem_mul, isDigits_iff]
  constructor
  · rintro ⟨first, here, others, there, rfl⟩
    obtain ⟨c, digit, rfl⟩ := mem_digitPattern.mp here
    refine ⟨by simp, List.forall_mem_append.mpr ⟨?_, mem_star_digitPattern.mp there⟩⟩
    exact List.forall_mem_singleton.mpr digit
  · rintro ⟨filled, digits⟩
    cases x with
    | nil => exact absurd rfl filled
    | cons c x =>
      obtain ⟨here, there⟩ := List.forall_mem_cons.mp digits
      exact ⟨[c], mem_digitPattern.mpr ⟨c, here, rfl⟩, x, mem_star_digitPattern.mpr there, rfl⟩

def signs : List (List Char) :=
  [[], ['+'], ['-']]

theorem mem_signPattern {x : List Char} : x ∈ signPattern.matches' ↔ x ∈ signs := by
  rw [signPattern, matches'_add, Language.mem_add, matches'_epsilon, Language.mem_one, mem_oneOf]
  simp [signs]

/-- The pattern of integers matches a sign, if any, and one or more digits. -/
theorem mem_integerPattern {cs : List Char} : cs ∈ integerPattern.matches' ↔
    ∃ sign ∈ signs, ∃ digits, isDigits digits = true ∧ cs = sign ++ digits := by
  rw [integerPattern, matches'_mul, Language.mem_mul]
  simp only [mem_signPattern, mem_digitPattern_mul, eq_comm]

/-- The characters behind the sign of a real: a whole number, or digits behind a point, before which
others may stand. -/
def Unsigned (cs : List Char) : Prop :=
  isDigits cs = true ∨ ∃ whole fraction, (∀ c ∈ whole, c.isDigit = true) ∧
    isDigits fraction = true ∧ cs = whole ++ '.' :: fraction

/-- `[0-9]*\.?[0-9]+` -/
theorem mem_unsigned {body : List Char} : body ∈ (digitPattern.star * ((1 + char '.') *
    (digitPattern * digitPattern.star))).matches' ↔ Unsigned body := by
  rw [matches'_mul, Language.mem_mul]
  constructor
  · rintro ⟨whole, before, rest, behind, rfl⟩
    rw [matches'_mul, Language.mem_mul] at behind
    obtain ⟨point, optional, fraction, digits, rfl⟩ := behind
    have before := mem_star_digitPattern.mp before
    have digits := mem_digitPattern_mul.mp digits
    rw [matches'_add, Language.mem_add] at optional
    rcases optional with none | one
    · rw [(Language.mem_one _).mp none, List.nil_append]
      obtain ⟨filled, all⟩ := isDigits_iff.mp digits
      exact .inl (isDigits_iff.mpr ⟨by simp [filled], List.forall_mem_append.mpr ⟨before, all⟩⟩)
    · rw [show point = ['.'] from one]
      exact .inr ⟨whole, fraction, before, digits, rfl⟩
  · rintro (digits | ⟨whole, fraction, before, digits, rfl⟩)
    · refine ⟨[], mem_star_digitPattern.mpr (List.forall_mem_nil _), body, ?_, rfl⟩
      exact ⟨[], .inl rfl, body, mem_digitPattern_mul.mpr digits, rfl⟩
    · refine ⟨whole, mem_star_digitPattern.mpr before, _, ?_, rfl⟩
      exact ⟨['.'], .inr rfl, fraction, mem_digitPattern_mul.mpr digits, rfl⟩

/-- The pattern of reals matches a sign, if any, and an unsigned real. -/
theorem mem_realPattern {cs : List Char} : cs ∈ realPattern.matches' ↔
    ∃ sign ∈ signs, ∃ body, Unsigned body ∧ cs = sign ++ body := by
  rw [realPattern, matches'_mul, Language.mem_mul]
  simp only [mem_signPattern, mem_unsigned, eq_comm]

/-- Every text of the pattern of integers is one of the pattern of reals. -/
theorem integerPattern_subset {cs : List Char} (integer : cs ∈ integerPattern.matches') :
    cs ∈ realPattern.matches' := by
  obtain ⟨sign, known, digits, all, rfl⟩ := mem_integerPattern.mp integer
  exact mem_realPattern.mpr ⟨sign, known, digits, .inl all, rfl⟩

/-! ### Values of numbers -/

/-- The number that the digits of a text stand for in base ten. -/
def magnitude (cs : List Char) : Nat :=
  Nat.ofDigits 10 ((cs.filter Char.isDigit).reverse.map fun c => c.toNat - '0'.toNat)

/-- The whole number that a text of the pattern of integers stands for. -/
def wholeValue (cs : List Char) : Int :=
  if '-' ∈ cs then -(magnitude cs : Int) else magnitude cs

/-- The double that a text of the pattern of reals stands for: the one nearest to its digits, with
as many places as digits stand behind the point. -/
def realValue (cs : List Char) : Float :=
  let unsigned := Decimal.nearest (magnitude cs) ((cs.dropWhile (· ≠ '.')).drop 1).length
  if '-' ∈ cs then -unsigned else unsigned

/-- Reading digits from the left comes to the value of the digits in base ten. -/
theorem digitsValue_eq (cs : List Char) :
    digitsValue cs = Nat.ofDigits 10 (cs.reverse.map fun c => c.toNat - '0'.toNat) := by
  rw [Nat.ofDigits_eq_foldr, List.map_reverse, List.foldr_reverse, List.foldl_map, digitsValue,
    Nat.ofDigitChars_eq_foldl]
  simp only [Nat.cast_id, Nat.add_comm]

/-- The characters of unsigned numbers. -/
def IsNumeric (cs : List Char) : Prop :=
  ∀ c ∈ cs, c.isDigit = true ∨ c = '.'

theorem Unsigned.isNumeric {cs : List Char} (unsigned : Unsigned cs) : IsNumeric cs := by
  intro c member
  rcases unsigned with digits | ⟨whole, fraction, before, digits, rfl⟩
  · exact .inl ((isDigits_iff.mp digits).2 c member)
  · rcases List.mem_append.mp member with front | rear
    · exact .inl (before c front)
    · rcases List.mem_cons.mp rear with point | behind
      · exact .inr point
      · exact .inl ((isDigits_iff.mp digits).2 c behind)

/-- An unsigned number has digits and points only. -/
theorem IsNumeric.not_mem {cs : List Char} (numeric : IsNumeric cs) {c : Char}
    (other : c.isDigit = false) (point : c ≠ '.') : c ∉ cs := by
  intro member
  rcases numeric c member with digit | same
  · rw [digit] at other
    cases other
  · exact point same

/-! ### The sign -/

/-- A text is an optional sign and what the sign leaves. -/
theorem exists_sign (cs : List Char) : ∃ sign ∈ signs, cs = sign ++ (splitSign cs).2 := by
  unfold splitSign
  split
  · exact ⟨['-'], by simp [signs], rfl⟩
  · exact ⟨['+'], by simp [signs], rfl⟩
  · exact ⟨[], by simp [signs], rfl⟩

section Signed

variable {sign : List Char} (known : sign ∈ signs)

include known

theorem eq_of_mem_signs : sign = [] ∨ sign = ['+'] ∨ sign = ['-'] := by
  simpa [signs] using known

/-- A sign is told from a number behind it. -/
theorem splitSign_append {body : List Char} (numeric : IsNumeric body) :
    splitSign (sign ++ body) = (decide ('-' ∈ sign ++ body), body) := by
  have minus : '-' ∉ body := numeric.not_mem rfl (by decide)
  have plus : '+' ∉ body := numeric.not_mem rfl (by decide)
  rcases eq_of_mem_signs known with rfl | rfl | rfl
  · rw [List.nil_append, decide_eq_false minus]
    unfold splitSign
    split
    · simp at minus
    · simp at plus
    · rfl
  · simp [splitSign, minus]
  · simp [splitSign]

theorem magnitude_append (body : List Char) : magnitude (sign ++ body) = magnitude body := by
  have none : sign.filter Char.isDigit = [] := by
    rcases eq_of_mem_signs known with rfl | rfl | rfl <;> rfl
  rw [magnitude, List.filter_append, none, List.nil_append, magnitude]

theorem dropWhile_point_append (body : List Char) :
    (sign ++ body).dropWhile (· ≠ '.') = body.dropWhile (· ≠ '.') := by
  rcases eq_of_mem_signs known with rfl | rfl | rfl <;> rfl

end Signed

/-- A number behind a sign is what `splitSign` leaves of the text. -/
theorem splitSign_eq {cs : List Char} (numeric : IsNumeric (splitSign cs).2) :
    (splitSign cs).1 = decide ('-' ∈ cs) ∧ magnitude cs = magnitude (splitSign cs).2 ∧
      cs.dropWhile (· ≠ '.') = (splitSign cs).2.dropWhile (· ≠ '.') := by
  obtain ⟨sign, known, whole⟩ := exists_sign cs
  have split := congrArg Prod.fst (splitSign_append known numeric)
  have digits := magnitude_append known (splitSign cs).2
  have point := dropWhile_point_append known (splitSign cs).2
  rw [← whole] at split digits point
  exact ⟨split, digits, point⟩

/-- A sign can be split off in one way only, since unsigned numbers do not start with one. -/
theorem exists_sign_append_iff {P : List Char → Prop} (numeric : ∀ body, P body → IsNumeric body)
    {cs : List Char} :
    (∃ sign ∈ signs, ∃ body, P body ∧ cs = sign ++ body) ↔ P (splitSign cs).2 := by
  constructor
  · rintro ⟨sign, known, body, holds, rfl⟩
    rw [splitSign_append known (numeric body holds)]
    exact holds
  · intro holds
    obtain ⟨sign, known, whole⟩ := exists_sign cs
    exact ⟨sign, known, _, holds, whole⟩

/-! ### Integers -/

theorem magnitude_of_isDigit {digits : List Char} (all : ∀ c ∈ digits, c.isDigit = true) :
    magnitude digits = digitsValue digits := by
  rw [magnitude, List.filter_eq_self.mpr all, digitsValue_eq]

/-- Splitting off the sign decides whether the pattern of integers matches. -/
theorem mem_integerPattern_iff {cs : List Char} :
    cs ∈ integerPattern.matches' ↔ isDigits (splitSign cs).2 = true := by
  rw [mem_integerPattern]
  exact exists_sign_append_iff fun body digits => Unsigned.isNumeric (.inl digits)

/-- The text is an integer literal of the value `n`, which has 64 bits. -/
def IsInteger (cs : List Char) (n : Int64) : Prop :=
  cs ∈ integerPattern.matches' ∧ wholeValue cs = n.toInt

/-- The reader of integers takes the texts of the pattern whose value has 64 bits. -/
theorem integer?_eq_some_iff {cs : List Char} {n : Int64} :
    integer? cs = some n ↔ IsInteger cs n := by
  rw [IsInteger, mem_integerPattern_iff, integer?]
  by_cases digits : isDigits (splitSign cs).2 = true
  · obtain ⟨sign, value, -⟩ := splitSign_eq (Unsigned.isNumeric (.inl digits))
    rw [magnitude_of_isDigit (isDigits_iff.mp digits).2] at value
    simp only [digits, if_true, Number.word?_eq_some_iff, true_and, wholeValue, value, sign,
      decide_eq_true_eq]
  · simp [digits]

/-! ### Reals -/

/-- Digits go up to the point. -/
theorem dropWhile_point {whole : List Char} (digits : ∀ c ∈ whole, c.isDigit = true)
    (rest : List Char) : (whole ++ rest).dropWhile (· ≠ '.') = rest.dropWhile (· ≠ '.') ∧
      (whole ++ rest).takeWhile (· ≠ '.') = whole ++ rest.takeWhile (· ≠ '.') := by
  have other : ∀ c ∈ whole, decide (c ≠ '.') = true := by
    intro c member
    refine decide_eq_true fun point => ?_
    have digit := digits c member
    rw [point] at digit
    cases digit
  exact ⟨List.dropWhile_append_of_pos other, List.takeWhile_append_of_pos other⟩

/-- An unsigned real is divided at its point, if it has one. -/
theorem realParts?_eq_some_iff {cs whole fraction : List Char} :
    realParts? cs = some (whole, fraction) ↔
      (isDigits cs = true ∧ whole = cs ∧ fraction = []) ∨
        ((∀ c ∈ whole, c.isDigit = true) ∧ isDigits fraction = true ∧
          cs = whole ++ '.' :: fraction) := by
  constructor
  · intro found
    unfold realParts? at found
    split at found
    · split at found
      · next digits =>
        cases found
        exact .inl ⟨digits, rfl, rfl⟩
      · cases found
    · next c rest divided =>
      dsimp only at found
      split at found
      · next digits =>
        cases found
        obtain ⟨before, behind⟩ := Bool.and_eq_true_iff.mp digits
        have stop := List.head?_dropWhile_not (· ≠ '.') cs
        rw [divided] at stop
        have point : c = '.' := by simpa using stop
        subst point
        refine .inr ⟨List.all_eq_true.mp before, behind, ?_⟩
        rw [← divided, List.takeWhile_append_dropWhile]
      · cases found
  · rintro (⟨digits, rfl, rfl⟩ | ⟨before, behind, rfl⟩)
    · have none := (dropWhile_point (isDigits_iff.mp digits).2 []).1
      rw [List.append_nil] at none
      rw [realParts?, none]
      exact if_pos digits
    · obtain ⟨rear, front⟩ := dropWhile_point before ('.' :: fraction)
      rw [realParts?, rear, front]
      simp [behind, List.all_eq_true.mpr before]

/-- The parts of an unsigned real are found exactly if it is one. -/
theorem unsigned_iff {cs : List Char} : Unsigned cs ↔ ∃ parts, realParts? cs = some parts := by
  constructor
  · rintro (digits | ⟨whole, fraction, parts⟩)
    · exact ⟨(cs, []), realParts?_eq_some_iff.mpr (.inl ⟨digits, rfl, rfl⟩)⟩
    · exact ⟨(whole, fraction), realParts?_eq_some_iff.mpr (.inr parts)⟩
  · rintro ⟨⟨whole, fraction⟩, found⟩
    rcases realParts?_eq_some_iff.mp found with ⟨digits, -⟩ | parts
    · exact .inl digits
    · exact .inr ⟨whole, fraction, parts⟩

/-- Splitting off the sign decides whether the pattern of reals matches. -/
theorem mem_realPattern_iff {cs : List Char} :
    cs ∈ realPattern.matches' ↔ Unsigned (splitSign cs).2 := by
  rw [mem_realPattern]
  exact exists_sign_append_iff fun body => Unsigned.isNumeric

/-- The digits of an unsigned real are those of its parts, and behind the point is the second. -/
theorem magnitude_of_realParts? {cs whole fraction : List Char}
    (found : realParts? cs = some (whole, fraction)) :
    magnitude cs = digitsValue (whole ++ fraction) ∧
      ((cs.dropWhile (· ≠ '.')).drop 1).length = fraction.length := by
  rcases realParts?_eq_some_iff.mp found with ⟨digits, rfl, rfl⟩ | ⟨before, behind, rfl⟩
  · have all := (isDigits_iff.mp digits).2
    have none := (dropWhile_point all []).1
    rw [List.append_nil] at none ⊢
    exact ⟨magnitude_of_isDigit all, by rw [none]; rfl⟩
  · have all := List.forall_mem_append.mpr ⟨before, (isDigits_iff.mp behind).2⟩
    have point : magnitude (whole ++ '.' :: fraction) = magnitude (whole ++ fraction) := by
      simp [magnitude]
    rw [point, magnitude_of_isDigit all, (dropWhile_point before ('.' :: fraction)).1]
    exact ⟨rfl, rfl⟩

/-- The reader of reals takes the texts of the pattern, and gives their value. -/
theorem real?_eq_some_iff {cs : List Char} {x : Float} :
    real? cs = some x ↔ cs ∈ realPattern.matches' ∧ x = realValue cs := by
  rw [mem_realPattern_iff]
  by_cases unsigned : Unsigned (splitSign cs).2
  · obtain ⟨sign, digits, point⟩ := splitSign_eq unsigned.isNumeric
    obtain ⟨⟨whole, fraction⟩, found⟩ := unsigned_iff.mp unsigned
    obtain ⟨value, places⟩ := magnitude_of_realParts? found
    simp only [real?, found, Option.map_some, Option.some.injEq, unsigned, true_and, realValue,
      digits, point, value, places, sign, decide_eq_true_eq]
    exact eq_comm
  · have none : realParts? (splitSign cs).2 = none := by
      rw [Option.eq_none_iff_forall_ne_some]
      exact fun parts found => unsigned (unsigned_iff.mpr ⟨parts, found⟩)
    simp [real?, none, unsigned]

/-! ### The order of the kinds -/

def boolText : Bool → List Char
  | true => "true".toList
  | false => "false".toList

/-- The text has a letter or digit of some script, an underscore or the sign of an operation. -/
def HasSymbolChar (cs : List Char) : Prop :=
  ∃ c ∈ cs, Text.isAlphanumeric c = true ∨ c ∈ ['_', '+', '*', '-', '%', '<', '>', '=']

/-- The text is no number, no boolean and no marker. -/
structure IsOther (cs : List Char) : Prop where
  number : cs ∉ realPattern.matches'
  boolean : ∀ b, cs ≠ boolText b
  marker : ¬ Marks cs

/-- The value of an atom: the kinds are tried one after the other, and at the end there is none. -/
inductive Classified (cs : List Char) : Option Value → Prop
  | integer {n : Int64} : IsInteger cs n → Classified cs (some (.int n))
  | real : (∀ n, ¬ IsInteger cs n) → cs ∈ realPattern.matches' →
      Classified cs (some (.real (realValue cs)))
  | boolean {b : Bool} : cs ∉ realPattern.matches' → cs = boolText b →
      Classified cs (some (.bool b))
  | marker : cs ∉ realPattern.matches' → (∀ b, cs ≠ boolText b) → Marks cs →
      Classified cs (some (.marker (String.ofList cs)))
  | symbol : IsOther cs → HasSymbolChar cs → Classified cs (some (.symbol (String.ofList cs)))
  | unknown : IsOther cs → ¬ HasSymbolChar cs → Classified cs none

theorem isMarker_iff {cs : List Char} : isMarker cs = true ↔ Marks cs := by
  refine ⟨fun found => ?_, isMarker_of_marks⟩
  induction cs with
  | nil => cases found
  | cons c cs ih =>
    unfold isMarker at found
    rcases Bool.or_eq_true_iff.mp found with here | later
    · split at here
      · next d rest =>
        exact ⟨[], d, rest, rfl, by simpa using here⟩
      · cases here
    · obtain ⟨before, d, after, rfl, word⟩ := ih later
      exact ⟨c :: before, d, after, rfl, word⟩

theorem any_isSymbolChar_iff {cs : List Char} :
    cs.any isSymbolChar = true ↔ HasSymbolChar cs := by
  simp only [List.any_eq_true, HasSymbolChar, isSymbolChar, Bool.or_eq_true, beq_iff_eq,
    List.mem_cons, List.not_mem_nil, or_false, or_assoc]

theorem integer?_eq_none_iff {cs : List Char} :
    integer? cs = none ↔ ∀ n, ¬ IsInteger cs n := by
  simp only [Option.eq_none_iff_forall_ne_some, ne_eq, integer?_eq_some_iff]

theorem real?_eq_none_iff {cs : List Char} : real? cs = none ↔ cs ∉ realPattern.matches' := by
  simp [Option.eq_none_iff_forall_ne_some, real?_eq_some_iff]

/-- Atoms are classified in the order of the kinds. -/
theorem classified_atom? (cs : List Char) : Classified cs (atom? cs) := by
  unfold atom?
  split
  · next n integer => exact .integer (integer?_eq_some_iff.mp integer)
  · next none =>
    split
    · next x real =>
      obtain ⟨number, rfl⟩ := real?_eq_some_iff.mp real
      exact .real (integer?_eq_none_iff.mp none) number
    · next none =>
      have number := real?_eq_none_iff.mp none
      split_ifs with yes no marker symbol
      · exact .boolean number yes
      · exact .boolean number no
      · refine .marker number ?_ (isMarker_iff.mp marker)
        rintro (_ | _) <;> assumption
      · refine .symbol ⟨number, ?_, mt isMarker_iff.mpr marker⟩ (any_isSymbolChar_iff.mp symbol)
        rintro (_ | _) <;> assumption
      · have symbol := mt any_isSymbolChar_iff.mpr symbol
        refine .unknown ⟨number, ?_, mt isMarker_iff.mpr marker⟩ symbol
        rintro (_ | _) <;> assumption

/-- Whatever is an integer also matches the pattern of reals. -/
theorem integer?_of_not_mem {cs : List Char} (number : cs ∉ realPattern.matches') :
    integer? cs = none :=
  integer?_eq_none_iff.mpr fun _ integer => number (integerPattern_subset integer.1)

/-- What is no number, boolean or marker is a symbol if a character allows it, and else nothing. -/
theorem IsOther.atom?_eq {cs : List Char} (other : IsOther cs) :
    atom? cs = if cs.any isSymbolChar then some (.symbol (String.ofList cs)) else none := by
  have yes : cs ≠ "true".toList := other.boolean true
  have no : cs ≠ "false".toList := other.boolean false
  have marker : ¬ isMarker cs = true := mt isMarker_iff.mp other.marker
  simp only [atom?, integer?_of_not_mem other.number, real?_eq_none_iff.mpr other.number, yes, no,
    marker, Bool.false_eq_true, if_false]

theorem atom?_boolText (b : Bool) : atom? (boolText b) = some (.bool b) := by
  cases b <;> rfl

/-- A marker is neither a number nor a boolean, so it is found at its turn. -/
theorem atom?_of_marks {cs : List Char} (marks : Marks cs) :
    atom? cs = some (.marker (String.ofList cs)) := by
  have marks : Marks (String.ofList cs).toList := by rwa [String.toList_ofList]
  have value := atom?_marker marks
  rwa [String.toList_ofList] at value

/-- The kinds of atoms, tried in turn, are the ones that the patterns tell apart. -/
theorem atom?_eq_iff {cs : List Char} {r : Option Value} : atom? cs = r ↔ Classified cs r := by
  constructor
  · rintro rfl
    exact classified_atom? cs
  · intro classified
    cases classified with
    | integer integer => rw [atom?, integer?_eq_some_iff.mpr integer]
    | real none number =>
      rw [atom?, integer?_eq_none_iff.mpr none, real?_eq_some_iff.mpr ⟨number, rfl⟩]
    | boolean _ same => rw [same, atom?_boolText]
    | marker _ _ marks => exact atom?_of_marks marks
    | symbol other symbol => rw [other.atom?_eq, if_pos (any_isSymbolChar_iff.mpr symbol)]
    | unknown other symbol => rw [other.atom?_eq, if_neg (mt any_isSymbolChar_iff.mp symbol)]

namespace Classified

variable {cs : List Char}

theorem integer_iff {n : Int64} : Classified cs (some (.int n)) ↔ IsInteger cs n := by
  constructor
  · rintro (integer | _)
    exact integer
  · exact .integer

theorem real_iff {x : Float} : Classified cs (some (.real x)) ↔
    (∀ n, ¬ IsInteger cs n) ∧ cs ∈ realPattern.matches' ∧ x = realValue cs := by
  constructor
  · rintro (_ | ⟨none, number⟩)
    exact ⟨none, number, rfl⟩
  · rintro ⟨none, number, rfl⟩
    exact .real none number

theorem boolean_iff {b : Bool} : Classified cs (some (.bool b)) ↔ cs = boolText b := by
  constructor
  · rintro (_ | _ | ⟨-, same⟩)
    exact same
  · rintro rfl
    exact atom?_eq_iff.mp (atom?_boolText b)

theorem marker_iff {name : String} :
    Classified cs (some (.marker name)) ↔ name = String.ofList cs ∧ Marks cs := by
  constructor
  · rintro (_ | _ | _ | ⟨-, -, marks⟩)
    exact ⟨rfl, marks⟩
  · rintro ⟨rfl, marks⟩
    exact atom?_eq_iff.mp (atom?_of_marks marks)

theorem symbol_iff {name : String} : Classified cs (some (.symbol name)) ↔
    name = String.ofList cs ∧ IsOther cs ∧ HasSymbolChar cs := by
  constructor
  · rintro (_ | _ | _ | _ | ⟨other, symbol⟩)
    exact ⟨rfl, other, symbol⟩
  · rintro ⟨rfl, other, symbol⟩
    exact .symbol other symbol

theorem none_iff : Classified cs none ↔ IsOther cs ∧ ¬ HasSymbolChar cs := by
  constructor
  · rintro (_ | _ | _ | _ | _ | ⟨other, symbol⟩)
    exact ⟨other, symbol⟩
  · rintro ⟨other, symbol⟩
    exact .unknown other symbol

/-- An integer that is too large is a real. -/
theorem real_of_large (integer : cs ∈ integerPattern.matches')
    (large : ¬ (-2 ^ 63 ≤ wholeValue cs ∧ wholeValue cs < 2 ^ 63)) :
    Classified cs (some (.real (realValue cs))) := by
  refine .real (fun n small => large ?_) (integerPattern_subset integer)
  rw [small.2]
  exact ⟨n.le_toInt, n.toInt_lt⟩

end Classified

end Literal

/-! ### Reading an atom -/

/-- What a token that is a form by itself reads as. -/
def Token.classified (token : Token) : Except SourceError Value :=
  match token.value? with
  | some v => .ok v
  | none => .error (.unknownAtom token.lexeme token.start)

section Atom

variable {token : Token} (atom : token.kind = .atom)

include atom

theorem Token.classified_eq_ok_iff {v : Value} :
    token.classified = .ok v ↔ Literal.Classified token.lexeme (some v) := by
  rw [← Literal.atom?_eq_iff, Token.classified, Token.value?, atom]
  dsimp only
  cases Literal.atom? token.lexeme <;> simp

/-- A token that is no atom is reported at its start. -/
theorem Token.classified_eq_error_iff {e : SourceError} : token.classified = .error e ↔
    e = .unknownAtom token.lexeme token.start ∧ Literal.Classified token.lexeme none := by
  rw [← Literal.atom?_eq_iff, Token.classified, Token.value?, atom]
  dsimp only
  cases Literal.atom? token.lexeme <;> simp [eq_comm]

/-- The reader hands the value of an atom on, or fails at the atom. -/
theorem Reading.step_atom (stack : List Pending) :
    step stack token = match token.classified with
      | .ok v => complete stack v
      | .error e => .failed e := by
  simp only [step, Token.classified, Token.value?, atom]
  cases Literal.atom? token.lexeme <;> rfl

/-- An atom that comes first is read. -/
theorem Scanner.readForm_atom {s s' : Scanner} (next : s.next = (.ok token, s')) :
    s.readForm = (token.classified, s') := by
  rw [readForm, Reading.run_succ next, Reading.step_atom atom]
  cases token.classified <;> rfl

end Atom

/-- Messages begin with other words. -/
theorem SourceError.message_ne (e : SourceError) :
    ¬ "invalid real literal".toList <+: e.diagnostic.message.toList := by
  cases e <;> simp [diagnostic, Diagnostic.located]

open Literal in
/-- Atoms are classified by their patterns. An atom reads as an integer exactly if it matches the
pattern of integers and its value has 64 bits; otherwise as a real exactly if it matches the pattern
of reals, so that an integer literal with a larger value is a real of the nearest value; otherwise
as a boolean, a marker or a symbol, exactly if it is the word for it, has the mark of it, or has a
character of it. What matches none of these is refused, with the code for it, at the atom, and
nothing else is. The reader takes an atom for this value, or refuses it, wherever the
atom stands. -/
theorem atoms_classified {token : Token} (atom : token.kind = .atom) :
    (∀ n, token.classified = .ok (.int n) ↔ IsInteger token.lexeme n) ∧
    (∀ x, token.classified = .ok (.real x) ↔ (∀ n, ¬ IsInteger token.lexeme n) ∧
      token.lexeme ∈ realPattern.matches' ∧ x = realValue token.lexeme) ∧
    (token.lexeme ∈ integerPattern.matches' →
      ¬ (-2 ^ 63 ≤ wholeValue token.lexeme ∧ wholeValue token.lexeme < 2 ^ 63) →
      token.classified = .ok (.real (realValue token.lexeme))) ∧
    (∀ b, token.classified = .ok (.bool b) ↔ token.lexeme = boolText b) ∧
    (∀ name, token.classified = .ok (.marker name) ↔
      name = String.ofList token.lexeme ∧ Marks token.lexeme) ∧
    (∀ name, token.classified = .ok (.symbol name) ↔
      name = String.ofList token.lexeme ∧ IsOther token.lexeme ∧ HasSymbolChar token.lexeme) ∧
    (∀ e, token.classified = .error e ↔ e = .unknownAtom token.lexeme token.start ∧
      IsOther token.lexeme ∧ ¬ HasSymbolChar token.lexeme) ∧
    (∀ e, token.classified = .error e → e.diagnostic.code = "READ003") ∧
    (∀ e : SourceError, ¬ "invalid real literal".toList <+: e.diagnostic.message.toList) ∧
    (∀ s s', Scanner.next s = (.ok token, s') → s.readForm = (token.classified, s')) ∧
    ∀ stack, Reading.step stack token = match token.classified with
      | .ok v => Reading.complete stack v
      | .error e => .failed e := by
  simp only [token.classified_eq_ok_iff atom, token.classified_eq_error_iff atom]
  refine ⟨fun _ => Classified.integer_iff, fun _ => Classified.real_iff, Classified.real_of_large,
    fun _ => Classified.boolean_iff, fun _ => Classified.marker_iff, fun _ => Classified.symbol_iff,
    fun e => and_congr_right fun _ => Classified.none_iff, ?_, SourceError.message_ne,
    fun s s' => Scanner.readForm_atom atom, Reading.step_atom atom⟩
  rintro e ⟨rfl, -⟩
  rfl

open Literal in
/-- One below the least integer is a real, and the least integer with a leading zero is
an integer. -/
theorem atoms_classified_below_least :
    let token (lexeme : String) : Token := ⟨.atom, lexeme.toList, .start⟩
    (token "-9223372036854775809").lexeme ∈ integerPattern.matches' ∧
      (token "-9223372036854775809").classified =
        .ok (.real (realValue "-9223372036854775809".toList)) ∧
      (token "-09223372036854775808").classified = .ok (.int Int64.minValue) := by
  intro token
  have below : "-9223372036854775809".toList ∈ integerPattern.matches' :=
    mem_integerPattern_iff.mpr rfl
  have least : "-09223372036854775808".toList ∈ integerPattern.matches' :=
    mem_integerPattern_iff.mpr rfl
  have value : wholeValue "-9223372036854775809".toList = -9223372036854775809 := rfl
  obtain ⟨-, -, large, -⟩ := atoms_classified (rfl : (token "-9223372036854775809").kind = .atom)
  obtain ⟨integer, -⟩ := atoms_classified (rfl : (token "-09223372036854775808").kind = .atom)
  refine ⟨below, large below fun range => ?_, (integer _).mpr ⟨least, rfl⟩⟩
  have range : -2 ^ 63 ≤ wholeValue "-9223372036854775809".toList := range.1
  rw [value] at range
  omega

end SmallLisp
