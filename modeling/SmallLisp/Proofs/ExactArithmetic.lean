import Mathlib.Algebra.Ring.Int.Defs
import SmallLisp.Builtin.Arithmetic

/-!
Integer arithmetic is exact or reported.

A step on 64-bit integers gives the exact whole number or a fault, and which of the two is said of
whole numbers alone: `Operation.Passes` and `Operation.Refuses` exclude each other and leave nothing
out. A fold of steps gives the exact result as long as all steps pass, and the first step that does
not is reported, also where a later operand would bring the result back. The modulus is the floored
one: the truncated remainder is corrected by one addition, which stays within 64 bits
(`Number.toInt_wordModulus`).
-/

namespace SmallLisp

/-! ### Whole numbers of 64 bits -/

namespace Number

/-- The whole number has 64 bits. -/
def IsWord (n : Int) : Prop :=
  -2 ^ 63 ≤ n ∧ n < 2 ^ 63

theorem isWord_toInt (n : Int64) : IsWord n.toInt :=
  ⟨n.le_toInt, n.toInt_lt⟩

theorem exists_toInt_eq {n : Int} (word : IsWord n) : ∃ w : Int64, w.toInt = n :=
  ⟨Int64.ofInt n, Int64.toInt_ofInt_of_le word.1 word.2⟩

/-- There is no integer for a whole number of more than 64 bits. -/
theorem word?_eq_none_iff {n : Int} : word? n = none ↔ ¬ IsWord n := by
  rw [Option.eq_none_iff_forall_ne_some]
  constructor
  · intro missing word
    obtain ⟨w, rfl⟩ := exists_toInt_eq word
    exact missing w (word?_toInt w)
  · intro large w found
    rw [word?_eq_some_iff.mp found] at large
    exact large (isWord_toInt w)

/-- A sum of words that has 64 bits is not wrapped. -/
theorem toInt_add_of_isWord {a b : Int64} (word : IsWord (a.toInt + b.toInt)) :
    (a + b).toInt = a.toInt + b.toInt := by
  obtain ⟨w, value⟩ := exists_toInt_eq word
  rw [Int64.toInt_add, ← value, Int64.toInt_bmod]

/-! ### The floored modulus -/

/-- The floored modulus lies between zero and the divisor. -/
theorem fmod_between (a : Int) {b : Int} (nonzero : b ≠ 0) :
    (0 < b ∧ 0 ≤ a.fmod b ∧ a.fmod b < b) ∨ (b < 0 ∧ b < a.fmod b ∧ a.fmod b ≤ 0) := by
  rcases Int.lt_or_gt_of_ne nonzero with negative | positive
  · have least := Int.fmod_nonneg_of_pos (-a) (Int.neg_pos_of_neg negative)
    have most := Int.fmod_lt_of_pos (-a) (Int.neg_pos_of_neg negative)
    rw [Int.neg_fmod_neg] at least most
    exact .inr ⟨negative, by omega, by omega⟩
  · exact .inl ⟨positive, Int.fmod_nonneg_of_pos a positive, Int.fmod_lt_of_pos a positive⟩

/-- The floored remainder is zero or has the sign of the divisor. -/
theorem fmod_eq_zero_or_sign_eq (a : Int) {b : Int} (nonzero : b ≠ 0) :
    a.fmod b = 0 ∨ (a.fmod b).sign = b.sign := by
  by_cases divides : a.fmod b = 0
  · exact .inl divides
  · right
    rcases fmod_between a nonzero with ⟨positive, least, -⟩ | ⟨negative, -, most⟩
    · rw [Int.sign_eq_one_of_pos positive, Int.sign_eq_one_of_pos (by omega)]
    · rw [Int.sign_eq_neg_one_of_neg negative, Int.sign_eq_neg_one_of_neg (by omega)]

/-- The floored remainder by a word is a word, since it is nearer to zero than the divisor. -/
theorem isWord_fmod (a : Int) {b : Int} (nonzero : b ≠ 0) (word : IsWord b) :
    IsWord (a.fmod b) := by
  obtain ⟨least, most⟩ := word
  rcases fmod_between a nonzero with ⟨-, low, high⟩ | ⟨-, low, high⟩
  · exact ⟨by omega, by omega⟩
  · exact ⟨by omega, by omega⟩

/-- A truncated remainder of the wrong sign, moved by the divisor, is the floored modulus. -/
theorem wholeModulus_eq_fmod (a : Int) {b : Int} (nonzero : b ≠ 0) :
    wholeModulus a b = a.fmod b := by
  have low := Int.emod_nonneg a nonzero
  have high := Int.emod_lt a nonzero
  unfold wholeModulus
  rw [Int.fmod_eq_emod, Int.tmod_eq_emod]
  by_cases divides : b ∣ a
  · simp [divides, Int.emod_eq_zero_of_dvd divides]
  · have remains : a % b ≠ 0 := fun zero => divides (Int.dvd_of_emod_eq_zero zero)
    simp only [divides, or_false]
    grind

/-- The modulus as words compute it: the remainder of words, and where its sign is wrong the sum of
words. -/
def wordModulus (a b : Int64) : Int64 :=
  if a % b ≠ 0 ∧ (decide (a % b < 0) != decide (b < 0)) then a % b + b else a % b

/-- Neither the remainder nor its correction is wrapped. -/
theorem toInt_wordModulus (a : Int64) {b : Int64} (nonzero : b ≠ 0) :
    (wordModulus a b).toInt = a.toInt.fmod b.toInt := by
  have divisor : b.toInt ≠ 0 := fun zero => nonzero (Int64.toInt_inj.mp zero)
  have value := wholeModulus_eq_fmod a.toInt divisor
  have zero : a % b ≠ 0 ↔ a.toInt.tmod b.toInt ≠ 0 := by
    rw [← Int64.toInt_mod, ne_eq, ← Int64.toInt_inj]
    rfl
  have negative : ∀ c : Int64, decide (c < 0) = decide (c.toInt < 0) := fun c =>
    decide_eq_decide.mpr Int64.lt_iff_toInt_lt
  unfold wordModulus
  rw [← value, wholeModulus]
  simp only [zero, negative, Int64.toInt_mod]
  split
  · next wrong =>
    rw [wholeModulus, if_pos wrong, ← Int64.toInt_mod] at value
    have word := isWord_fmod a.toInt divisor (isWord_toInt b)
    rw [← value] at word
    rw [toInt_add_of_isWord word, Int64.toInt_mod]
  · exact Int64.toInt_mod a b

end Number

/-! ### One step -/

namespace Operation

open Number

/-- The operation on whole numbers; the modulus is the floored one. -/
def exact : Operation → Int → Int → Int
  | add, a, b => a + b
  | subtract, a, b => a - b
  | multiply, a, b => a * b
  | modulo, a, b => a.fmod b

/-- The step is defined and its exact result has 64 bits. -/
def Passes (op : Operation) (a b : Int) : Prop :=
  (op = modulo → b ≠ 0 ∧ ¬ (a = -2 ^ 63 ∧ b = -1)) ∧ IsWord (op.exact a b)

inductive Refuses : Operation → Int → Int → Fault → Prop
  | zero (a : Int) : Refuses modulo a 0 .zeroModulus
  | least : Refuses modulo (-2 ^ 63) (-1) (.overflow modulo.name)
  | outside {op : Operation} {a b : Int} : op ≠ modulo → ¬ IsWord (op.exact a b) →
      Refuses op a b (.overflow op.name)

variable {op : Operation} {a b n c : Int64} {ns before after : List Int64} {cause : Fault}

theorem exactly_eq_ok {m : Int} (value : c.toInt = m) : op.exactly m = .ok c := by
  rw [exactly, word?_eq_some_iff.mpr value.symm]

/-- A result that is too large is reported as an overflow. -/
theorem exactly_eq_error {m : Int} (large : ¬ IsWord m) :
    op.exactly m = .error (.overflow op.name) := by
  rw [exactly, word?_eq_none_iff.mpr large]

/-- Apart from the modulus, a step computes the exact result and looks at nothing else. -/
theorem onIntegers_of_ne_modulo (other : op ≠ modulo) :
    op.onIntegers a b = op.exactly (op.exact a.toInt b.toInt) := by
  cases op with
  | modulo => exact absurd rfl other
  | _ => rfl

/-- But for the divisor zero and the one quotient that is no word, the modulus is computed by words.
-/
theorem onIntegers_modulo (nonzero : b ≠ 0) (quotient : ¬ (a = Int64.minValue ∧ b = -1)) :
    modulo.onIntegers a b = .ok (wordModulus a b) := by
  have divisor : b.toInt ≠ 0 := fun zero => nonzero (Int64.toInt_inj.mp zero)
  simp only [onIntegers, if_neg nonzero, if_neg quotient]
  refine exactly_eq_ok ?_
  rw [toInt_wordModulus a nonzero, wholeModulus_eq_fmod _ divisor]

/-- A step that passes gives the exact result. -/
theorem onIntegers_of_passes (passes : op.Passes a.toInt b.toInt) :
    ∃ c, op.onIntegers a b = .ok c ∧ c.toInt = op.exact a.toInt b.toInt := by
  obtain ⟨defined, word⟩ := passes
  by_cases modulus : op = modulo
  · subst modulus
    obtain ⟨nonzero, quotient⟩ := defined rfl
    have nonzero : b ≠ 0 := by
      rintro rfl
      exact nonzero rfl
    have quotient : ¬ (a = Int64.minValue ∧ b = -1) := by
      rintro ⟨rfl, rfl⟩
      exact quotient ⟨rfl, rfl⟩
    exact ⟨_, onIntegers_modulo nonzero quotient, toInt_wordModulus a nonzero⟩
  · obtain ⟨c, value⟩ := exists_toInt_eq word
    exact ⟨c, (onIntegers_of_ne_modulo modulus).trans (exactly_eq_ok value), value⟩

/-- A step that refuses fails by the fault that it names. -/
theorem onIntegers_of_refuses (refuses : op.Refuses a.toInt b.toInt cause) :
    op.onIntegers a b = .error cause := by
  generalize dividend : a.toInt = m at refuses
  generalize divisor : b.toInt = k at refuses
  cases refuses with
  | zero =>
    obtain rfl : b = 0 := Int64.toInt_inj.mp divisor
    rfl
  | least =>
    obtain rfl : a = Int64.minValue := Int64.toInt_inj.mp dividend
    obtain rfl : b = -1 := Int64.toInt_inj.mp divisor
    rfl
  | outside other large =>
    rw [onIntegers_of_ne_modulo other, dividend, divisor, exactly_eq_error large]

/-- No step fails but those that are refused. -/
theorem passes_or_refuses (op : Operation) (a b : Int64) :
    op.Passes a.toInt b.toInt ∨ ∃ cause, op.Refuses a.toInt b.toInt cause := by
  by_cases modulus : op = modulo
  · subst modulus
    by_cases zero : b.toInt = 0
    · rw [zero]
      exact .inr ⟨_, .zero _⟩
    · by_cases least : a.toInt = -2 ^ 63 ∧ b.toInt = -1
      · rw [least.1, least.2]
        exact .inr ⟨_, .least⟩
      · exact .inl ⟨fun _ => ⟨zero, least⟩, isWord_fmod _ zero (isWord_toInt b)⟩
  · by_cases word : IsWord (op.exact a.toInt b.toInt)
    · exact .inl ⟨fun same => absurd same modulus, word⟩
    · exact .inr ⟨_, .outside modulus word⟩

/-! ### All steps -/

def total (op : Operation) (n : Int64) (ns : List Int64) : Int :=
  (ns.map Int64.toInt).foldl op.exact n.toInt

/-- Each step passes, on the exact result of the steps before it. -/
def AllPass (op : Operation) (n : Int64) (ns : List Int64) : Prop :=
  ∀ before b after, ns = before ++ b :: after → op.Passes (op.total n before) b.toInt

theorem allPass_nil (op : Operation) (n : Int64) : op.AllPass n [] := by
  intro before b after split
  simp at split

theorem total_cons (value : c.toInt = op.exact n.toInt b.toInt) (ns : List Int64) :
    op.total n (b :: ns) = op.total c ns := by
  simp [total, value]

theorem AllPass.head (all : op.AllPass n (b :: ns)) : op.Passes n.toInt b.toInt :=
  all [] b ns rfl

/-- The steps behind the first pass on its result. -/
theorem AllPass.tail (all : op.AllPass n (b :: ns)) (value : c.toInt = op.exact n.toInt b.toInt) :
    op.AllPass c ns := by
  intro before d after split
  rw [← total_cons value]
  exact all (b :: before) d after (by rw [split, List.cons_append])

theorem AllPass.cons (first : op.Passes n.toInt b.toInt)
    (value : c.toInt = op.exact n.toInt b.toInt) (others : op.AllPass c ns) :
    op.AllPass n (b :: ns) := by
  intro before d after split
  cases before with
  | nil =>
    cases split
    exact first
  | cons d' before =>
    cases split
    rw [total_cons value]
    exact others before d after rfl

theorem foldIntegers_cons (step : op.onIntegers n b = .ok c) (ns : List Int64) :
    op.foldIntegers n (b :: ns) = op.foldIntegers c ns := by
  rw [foldIntegers, step]

/-- If all steps pass, the fold gives the exact total. -/
theorem foldIntegers_of_allPass (all : op.AllPass n ns) :
    ∃ c, op.foldIntegers n ns = .ok c ∧ c.toInt = op.total n ns := by
  induction ns generalizing n with
  | nil => exact ⟨n, rfl, rfl⟩
  | cons b ns ih =>
    obtain ⟨c, step, value⟩ := onIntegers_of_passes all.head
    rw [foldIntegers_cons step, total_cons value]
    exact ih (all.tail value)

/-- The first step that does not pass is reported, whatever comes after it. -/
theorem foldIntegers_of_refuses (all : op.AllPass n before)
    (refuses : op.Refuses (op.total n before) b.toInt cause) :
    op.foldIntegers n (before ++ b :: after) = .error cause := by
  induction before generalizing n with
  | nil => rw [List.nil_append, foldIntegers, onIntegers_of_refuses refuses]
  | cons d before ih =>
    obtain ⟨c, step, value⟩ := onIntegers_of_passes all.head
    rw [total_cons value] at refuses
    rw [List.cons_append, foldIntegers_cons step]
    exact ih (all.tail value) refuses

/-- Either all steps pass, or there is a first one that does not. -/
theorem allPass_or_refuses (op : Operation) (n : Int64) (ns : List Int64) :
    op.AllPass n ns ∨ ∃ before b after cause, ns = before ++ b :: after ∧ op.AllPass n before ∧
      op.Refuses (op.total n before) b.toInt cause := by
  induction ns generalizing n with
  | nil => exact .inl (op.allPass_nil n)
  | cons b ns ih =>
    rcases op.passes_or_refuses n b with first | ⟨cause, refuses⟩
    · obtain ⟨c, value⟩ := exists_toInt_eq first.2
      rcases ih c with others | ⟨before, d, after, cause, rfl, all, refuses⟩
      · exact .inl (.cons first value others)
      · rw [← total_cons value] at refuses
        exact .inr ⟨b :: before, d, after, cause, rfl, .cons first value all, refuses⟩
    · exact .inr ⟨[], b, ns, cause, rfl, op.allPass_nil n, refuses⟩

/-- The fold gives a result exactly if all steps pass, and it is the exact total. -/
theorem foldIntegers_eq_ok_iff :
    op.foldIntegers n ns = .ok c ↔ op.AllPass n ns ∧ c.toInt = op.total n ns := by
  constructor
  · intro given
    rcases op.allPass_or_refuses n ns with all | ⟨before, b, after, cause, rfl, all, refuses⟩
    · obtain ⟨c', same, value⟩ := foldIntegers_of_allPass all
      cases given.symm.trans same
      exact ⟨all, value⟩
    · cases given.symm.trans (foldIntegers_of_refuses all refuses)
  · rintro ⟨all, value⟩
    obtain ⟨c', given, value'⟩ := foldIntegers_of_allPass all
    rw [given, Int64.toInt_inj.mp (value.trans value'.symm)]

/-- The fold fails at the first step that refuses, by the fault of that step. -/
theorem foldIntegers_eq_error_iff :
    op.foldIntegers n ns = .error cause ↔ ∃ before b after, ns = before ++ b :: after ∧
      op.AllPass n before ∧ op.Refuses (op.total n before) b.toInt cause := by
  constructor
  · intro failed
    rcases op.allPass_or_refuses n ns with all | ⟨before, b, after, cause', rfl, all, refuses⟩
    · obtain ⟨c, given, -⟩ := foldIntegers_of_allPass all
      cases failed.symm.trans given
    · cases failed.symm.trans (foldIntegers_of_refuses all refuses)
      exact ⟨before, b, after, rfl, all, refuses⟩
  · rintro ⟨before, b, after, rfl, all, refuses⟩
    exact foldIntegers_of_refuses all refuses

/-! ### Integer operands -/

theorem integers?_map_int (ns : List Int64) : integers? (ns.map Value.int) = some ns := by
  induction ns with
  | nil => rfl
  | cons n ns ih => simp [integers?, ih]

theorem reals_map_int (ns : List Int64) :
    reals (ns.map Value.int) = .ok (ns.map fun n => Float.ofInt n.toInt) := by
  induction ns with
  | nil => rfl
  | cons n ns ih => simp [reals, Value.toFloat?, ih, Except.map]

/-- If all operands are integers, nothing is done with reals. -/
theorem apply_integers (op : Operation) (n : Int64) (ns : List Int64) :
    op.apply ((n :: ns).map Value.int) = (op.foldIntegers n ns).map Value.int := by
  have noText : ¬ ((n :: ns).map Value.int).any (fun v => v.text?.isSome) = true := by
    simp [Value.text?]
  rw [apply, if_neg noText, reals_map_int, integers?_map_int]
  rfl

end Operation

open Operation Number

/-- On integers, of which there is one at least, an operation gives the left fold of the exact
operation if each step is defined and has 64 bits, and nothing else. Otherwise it fails with the
fault of the first step that does not pass: a modulus by zero, the modulus of the least integer
by -1, or an exact sum, difference or product without 64 bits; no other step fails. The floored
modulus is zero or has the sign of the divisor, and words compute it without wrapping. -/
theorem integers_exact_or_reported (op : Operation) (n : Int64) (ns : List Int64) :
    let outcome := op.apply ((n :: ns).map Value.int)
    (op.AllPass n ns → ∃ c : Int64, outcome = .ok (.int c) ∧ c.toInt = op.total n ns) ∧
    (∀ v, outcome = .ok v →
      op.AllPass n ns ∧ ∃ c : Int64, v = .int c ∧ c.toInt = op.total n ns) ∧
    (∀ cause, outcome = .error cause ↔ ∃ before b after, ns = before ++ b :: after ∧
      op.AllPass n before ∧ op.Refuses (op.total n before) b.toInt cause) ∧
    Fault.zeroModulus.code = "EVAL061" ∧ (Fault.overflow op.name).code = "EVAL060" ∧
    (∀ a b : Int, b ≠ 0 → a.fmod b = 0 ∨ (a.fmod b).sign = b.sign) ∧
    (∀ a b : Int64, b ≠ 0 → (wordModulus a b).toInt = a.toInt.fmod b.toInt) ∧
    ∀ a b : Int64, b ≠ 0 → ¬ (a = Int64.minValue ∧ b = -1) →
      modulo.onIntegers a b = .ok (wordModulus a b) := by
  intro outcome
  have folded : outcome = (op.foldIntegers n ns).map Value.int := op.apply_integers n ns
  refine ⟨fun all => ?_, fun v given => ?_, fun cause => ?_, rfl, rfl, fun a b nonzero => ?_,
    fun a b nonzero => ?_, fun a b => onIntegers_modulo⟩
  · obtain ⟨c, given, value⟩ := foldIntegers_of_allPass all
    exact ⟨c, by rw [folded, given]; rfl, value⟩
  · rw [folded] at given
    cases result : op.foldIntegers n ns with
    | error cause =>
      rw [result] at given
      cases given
    | ok c =>
      rw [result] at given
      cases given
      obtain ⟨all, value⟩ := foldIntegers_eq_ok_iff.mp result
      exact ⟨all, c, rfl, value⟩
  · rw [folded, ← foldIntegers_eq_error_iff]
    cases op.foldIntegers n ns <;> simp [Except.map]
  · exact fmod_eq_zero_or_sign_eq a nonzero
  · exact toInt_wordModulus a nonzero

/-- One more than the greatest integer is reported, also if the next operand would take it back, and
the modulus of the least integer by -1 is reported though zero has 64 bits. -/
theorem integers_exact_or_reported_cancelled :
    add.total Int64.maxValue [1, -1] = Int64.maxValue.toInt ∧
      add.apply [.int Int64.maxValue, .int 1, .int (-1)] = .error (.overflow "+") ∧
      modulo.total Int64.minValue [-1] = 0 ∧
      modulo.apply [.int Int64.minValue, .int (-1)] = .error (.overflow "%") ∧
      ∃ c : Int64, modulo.apply [.int (-7), .int 2] = .ok (.int c) ∧ c.toInt = 1 := by
  have sum := (integers_exact_or_reported add Int64.maxValue [1, -1]).2.2.1 (.overflow "+")
  have least := (integers_exact_or_reported modulo Int64.minValue [-1]).2.2.1 (.overflow "%")
  have floored := (integers_exact_or_reported modulo (-7) [2]).1
  refine ⟨rfl, sum.mpr ⟨[], 1, [-1], rfl, allPass_nil _ _, .outside (by decide) ?_⟩, rfl,
    least.mpr ⟨[], -1, [], rfl, allPass_nil _ _, .least⟩, floored ?_⟩
  · exact fun word => absurd word.2 (by decide)
  · have passes : modulo.Passes (-7) 2 := ⟨fun _ => ⟨by decide, by decide⟩, by decide, by decide⟩
    exact .cons (c := 1) passes rfl (allPass_nil _ _)

end SmallLisp
