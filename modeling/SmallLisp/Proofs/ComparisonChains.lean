import Mathlib.Data.List.Chain
import Mathlib.Data.List.Forall2
import SmallLisp.Builtin.Call

/-!
Comparing neighbours decides about all pairs.

The built-in comparisons look only at each operand and the next. Without reals that is enough: the
strict orders of integers and of texts are transitive, and so is structural equality, which is an
equivalence on values of any depth (`Value.Equals`). A pair of neighbours that cannot be compared is
an error wherever it stands (`Order.chain_eq_ok_iff`). Reals have to be left out: two large integers
that differ can both equal one real.
-/

namespace SmallLisp

namespace Value

/-- A real stands in the value, at some depth of lists. The body of a closure does not count, since
closures are compared by stamp. -/
inductive HasReal : Value → Prop
  | here (x : Float) : HasReal (.real x)
  | item {items : List Value} {v : Value} : v ∈ items → HasReal v → HasReal (.list items)

/-! ### The strict order -/

/-- Both values are integers, or both are texts. -/
inductive Comparable : Value → Value → Prop
  | int (m n : Int64) : Comparable (.int m) (.int n)
  | text (s t : String) : Comparable (.text s) (.text t)

/-- The first value is less: integers as numbers, texts lexicographically by code points. -/
inductive Below : Value → Value → Prop
  | int {m n : Int64} : m.toInt < n.toInt → Below (.int m) (.int n)
  | text {s t : String} : List.Lex (fun c d => c.toNat < d.toNat) s.toList t.toList →
      Below (.text s) (.text t)

theorem Comparable.symm {a b : Value} (comparable : Comparable a b) : Comparable b a := by
  cases comparable with
  | int m n => exact .int n m
  | text s t => exact .text t s

/-- Texts are ordered by the numbers of their code points. -/
theorem lex_iff_lt {s t : String} :
    List.Lex (fun c d => c.toNat < d.toNat) s.toList t.toList ↔ s < t :=
  Iff.rfl

/-- Integers are ordered as whole numbers. -/
theorem below_int_iff {m n : Int64} : Below (.int m) (.int n) ↔ m.toInt < n.toInt := by
  constructor
  · rintro ⟨less⟩
    assumption
  · exact .int

theorem below_text_iff {s t : String} : Below (.text s) (.text t) ↔ s < t := by
  rw [← lex_iff_lt]
  constructor
  · rintro ⟨less⟩
    assumption
  · exact .text

/-- The order is transitive, for integers and for texts. -/
theorem Below.trans {a b c : Value} (first : Below a b) (second : Below b c) : Below a c := by
  cases first with
  | int less =>
    cases second with
    | int less' => exact .int (Int.lt_trans less less')
  | text less =>
    cases second with
    | text less' =>
      exact .text (lex_iff_lt.mpr (String.lt_trans (lex_iff_lt.mp less) (lex_iff_lt.mp less')))

instance : Trans Below Below Below := ⟨Below.trans⟩

end Value

/-! ### Chains in order -/

namespace Order

open Value

def Relates : Order → Value → Value → Prop
  | less, a, b => Below a b
  | greater, a, b => Below b a

theorem relates_less : less.Relates = Below := rfl

variable {order : Order} {a b : Value} {vs : List Value}

/-- For values that can be compared the answer is the order itself. -/
theorem compare_of_comparable (order : Order) (comparable : Comparable a b) :
    ∃ here, order.compare a b = .ok here ∧ (here = true ↔ order.Relates a b) := by
  cases comparable with
  | int m n =>
    refine ⟨_, rfl, ?_⟩
    cases order with
    | less => simp [holds, Relates, below_int_iff]
    | greater => simp [holds, Relates, below_int_iff]
  | text s t =>
    refine ⟨_, rfl, ?_⟩
    cases order with
    | less => simp [holds, Relates, below_text_iff]
    | greater => simp [holds, Relates, below_text_iff]

/-- Other values without reals are reported, with both of them in the message. -/
theorem compare_of_not_comparable (order : Order) (left : ¬ a.HasReal) (right : ¬ b.HasReal)
    (apart : ¬ Comparable a b) : order.compare a b = .error (.incomparable order.name a b) := by
  cases a with
  | real x => exact absurd (.here x) left
  | int m =>
    cases b with
    | real x => exact absurd (.here x) right
    | int n => exact absurd (.int m n) apart
    | _ => rfl
  | text s =>
    cases b with
    | text t => exact absurd (.text s t) apart
    | _ => rfl
  | _ => cases b <;> rfl

/-- Where all neighbours can be compared, the answer is about all of them. -/
theorem chain_of_isChain (order : Order) :
    ∀ {vs : List Value}, vs.IsChain Comparable →
      ∃ answer, order.chain vs = .ok answer ∧ (answer = true ↔ vs.IsChain order.Relates)
  | [], _ => ⟨true, rfl, by simp⟩
  | [_], _ => ⟨true, rfl, by simp⟩
  | a :: b :: rest, comparable => by
    obtain ⟨first, others⟩ := List.isChain_cons_cons.mp comparable
    obtain ⟨here, compared, means⟩ := order.compare_of_comparable first
    obtain ⟨there, answered, means'⟩ := order.chain_of_isChain others
    refine ⟨here && there, ?_, ?_⟩
    · simp only [chain, compared, answered]
    · rw [Bool.and_eq_true, means, means', List.isChain_cons_cons]

/-- A pair of neighbours that cannot be compared is reported, also behind one that decides the
answer. -/
theorem chain_of_not_isChain (order : Order) :
    ∀ {vs : List Value}, (∀ v ∈ vs, ¬ v.HasReal) → ¬ vs.IsChain Comparable →
      ∃ a b, order.chain vs = .error (.incomparable order.name a b)
  | [], _, apart => absurd .nil apart
  | [v], _, apart => absurd (.singleton v) apart
  | a :: b :: rest, noReals, apart => by
    obtain ⟨left, others⟩ := List.forall_mem_cons.mp noReals
    by_cases first : Comparable a b
    · have behind : ¬ (b :: rest).IsChain Comparable := fun chain =>
        apart (List.isChain_cons_cons.mpr ⟨first, chain⟩)
      obtain ⟨here, compared, -⟩ := order.compare_of_comparable first
      obtain ⟨c, d, failed⟩ := order.chain_of_not_isChain others behind
      exact ⟨c, d, by simp only [chain, compared, failed]⟩
    · have failed := order.compare_of_not_comparable left (others b List.mem_cons_self) first
      exact ⟨a, b, by simp only [chain, failed]⟩

/-- A chain has an answer if all neighbours can be compared, and it is whether all stand in the
order. -/
theorem chain_eq_ok_iff (noReals : ∀ v ∈ vs, ¬ v.HasReal) {answer : Bool} :
    order.chain vs = .ok answer ↔
      vs.IsChain Comparable ∧ (answer = true ↔ vs.IsChain order.Relates) := by
  by_cases comparable : vs.IsChain Comparable
  · obtain ⟨found, answered, means⟩ := order.chain_of_isChain comparable
    rw [answered, Except.ok.injEq, ← means, Bool.eq_iff_iff]
    simp only [comparable, true_and]
    exact ⟨Iff.symm, Iff.symm⟩
  · obtain ⟨a, b, failed⟩ := order.chain_of_not_isChain noReals comparable
    simp [failed, comparable]

/-- A list is descending if it is ascending from its end. -/
theorem greater_chain_eq_ok_iff (noReals : ∀ v ∈ vs, ¬ v.HasReal) {answer : Bool} :
    greater.chain vs = .ok answer ↔ less.chain vs.reverse = .ok answer := by
  have comparable : vs.reverse.IsChain Comparable ↔ vs.IsChain Comparable := by
    rw [List.isChain_reverse]
    constructor
    · exact List.IsChain.imp fun _ _ => Comparable.symm
    · exact List.IsChain.imp fun _ _ => Comparable.symm
  have descending : vs.reverse.IsChain less.Relates ↔ vs.IsChain greater.Relates :=
    List.isChain_reverse
  have noReals' : ∀ v ∈ vs.reverse, ¬ v.HasReal := by simpa using noReals
  rw [chain_eq_ok_iff noReals, chain_eq_ok_iff noReals', comparable, descending]

def builtin : Order → Builtin
  | less => .less
  | greater => .greater

theorem builtin_call_eq_value_iff {e : FrameId} {s : Store} {v : Value} :
    order.builtin.call vs e s = (.value v, s) ↔
      ∃ answer, order.chain vs = .ok answer ∧ v = .bool answer := by
  have called : order.builtin.call vs e = .ofExcept ((order.chain vs).map .bool) := by
    cases order <;> rfl
  rw [called]
  cases order.chain vs with
  | ok answer => simp [Run.ofExcept, Run.pure, Except.map, eq_comm]
  | error cause => simp [Run.ofExcept, Run.fail, Except.map]

/-- A comparison that fails leaves the store as it is. -/
theorem builtin_call_of_error {cause : Fault} (failed : order.chain vs = .error cause) (e : FrameId)
    (s : Store) : order.builtin.call vs e s = (.fault cause, s) := by
  cases order <;> simp [builtin, Builtin.call, failed, Run.ofExcept, Run.fail, Except.map]

end Order

/-! ### Structural equality -/

namespace Value

/-- Values of the same structure: closures are the same if they have the same stamp, built-in
procedures if they have the same name. -/
inductive Equals : Value → Value → Prop
  | int (n : Int64) : Equals (.int n) (.int n)
  | bool (b : Bool) : Equals (.bool b) (.bool b)
  | marker (name : String) : Equals (.marker name) (.marker name)
  | text (s : String) : Equals (.text s) (.text s)
  | symbol (name : String) : Equals (.symbol name) (.symbol name)
  | list {vs ws : List Value} : List.Forall₂ Equals vs ws → Equals (.list vs) (.list ws)
  | closure {stamp : Nat} {params params' : List String} {body body' : Value}
      {scope scope' : FrameId} :
      Equals (.closure stamp params body scope) (.closure stamp params' body' scope')
  | builtin {b c : Builtin} : b.name = c.name → Equals (.builtin b) (.builtin c)
  | nil : Equals .nil .nil

mutual

/-- What holds of a list whenever it holds of the elements, and of everything else, holds of all
values. -/
theorem nestedInduction {P : Value → Prop} (list : ∀ items, (∀ v ∈ items, P v) → P (.list items))
    (atom : ∀ v : Value, v.items? = none → P v) : ∀ v, P v
  | .list items => list items (nestedInduction_items list atom items)
  | .int _ | .real _ | .bool _ | .marker _ | .text _ | .symbol _ | .closure .. | .builtin _
  | .nil => atom _ rfl

theorem nestedInduction_items {P : Value → Prop}
    (list : ∀ items, (∀ v ∈ items, P v) → P (.list items))
    (atom : ∀ v : Value, v.items? = none → P v) : ∀ items : List Value, ∀ v ∈ items, P v
  | [] => List.forall_mem_nil _
  | v :: vs => List.forall_mem_cons.mpr
    ⟨nestedInduction list atom v, nestedInduction_items list atom vs⟩

end

theorem HasReal.of_items {items : List Value} (noReals : ¬ (Value.list items).HasReal) :
    ∀ v ∈ items, ¬ v.HasReal :=
  fun _ member real => noReals (.item member real)

/-- Without reals, which need not equal themselves, a value equals itself. -/
theorem Equals.refl (v : Value) (noReals : ¬ v.HasReal) : Equals v v := by
  induction v using nestedInduction with
  | list items ih =>
    refine .list (List.forall₂_same.mpr fun v member => ?_)
    exact ih v member (HasReal.of_items noReals v member)
  | atom v single =>
    cases v with
    | list => cases single
    | real x => exact absurd (.here x) noReals
    | builtin => exact .builtin rfl
    | _ => constructor

theorem Equals.symm {a b : Value} (equals : Equals a b) : Equals b a := by
  induction a using nestedInduction generalizing b with
  | list items ih =>
    cases equals with
    | list parts =>
      refine .list ?_
      induction parts with
      | nil => exact .nil
      | cons first _ rest =>
        obtain ⟨here, others⟩ := List.forall_mem_cons.mp ih
        exact .cons (here first) (rest others)
  | atom a single =>
    cases equals with
    | list => cases single
    | builtin named => exact .builtin named.symm
    | _ => constructor

theorem Equals.trans {a b c : Value} (first : Equals a b) (second : Equals b c) : Equals a c := by
  induction a using nestedInduction generalizing b c with
  | list items ih =>
    cases first with
    | list parts =>
      cases second with
      | list parts' =>
        refine .list ?_
        rename_i bs cs
        induction parts generalizing cs with
        | nil => exact parts'
        | cons head _ rest =>
          obtain ⟨here, others⟩ := List.forall_mem_cons.mp ih
          cases parts' with
          | cons head' tail' => exact .cons (here head head') (rest others tail')
  | atom a single =>
    cases first with
    | list => cases single
    | builtin named =>
      cases second with
      | builtin named' => exact .builtin (named.trans named')
    | closure =>
      cases second
      exact .closure
    | _ => exact second

instance : Trans Equals Equals Equals := ⟨Equals.trans⟩

instance : Std.Symm Equals := ⟨fun _ _ => Equals.symm⟩

theorem equals_list_iff {as bs : List Value} :
    Equals (.list as) (.list bs) ↔ List.Forall₂ Equals as bs := by
  constructor
  · rintro ⟨⟩
    assumption
  · exact .list

/-- Values other than lists and reals are the same if they have the same structure. -/
theorem same_iff_equals {a b : Value} (single : a.items? = none) (left : ¬ a.HasReal) :
    same a b = true ↔ Equals a b := by
  constructor
  · intro given
    unfold same at given
    split at given
    · obtain rfl := beq_iff_eq.mp given
      exact .int _
    · exact absurd (.here _) left
    · obtain rfl := beq_iff_eq.mp given
      exact .bool _
    · obtain rfl := beq_iff_eq.mp given
      exact .marker _
    · obtain rfl := beq_iff_eq.mp given
      exact .text _
    · obtain rfl := beq_iff_eq.mp given
      exact .symbol _
    · cases single
    · obtain rfl := beq_iff_eq.mp given
      exact .closure
    · obtain rfl := beq_iff_eq.mp given
      exact .builtin rfl
    · exact .nil
    · cases given
  · intro equals
    cases equals with
    | list => cases single
    | builtin named => simp [same, Builtin.name_injective named]
    | _ => simp [same]

/-- Lists are equal if their elements are, one by one. -/
theorem equalItems_iff_equals {as bs : List Value}
    (each : ∀ a ∈ as, ∀ b ∈ bs, a.equal b = true ↔ Equals a b) :
    equalItems as bs = true ↔ List.Forall₂ Equals as bs := by
  induction as generalizing bs with
  | nil => cases bs <;> simp [equalItems]
  | cons a as ih =>
    cases bs with
    | nil => simp [equalItems]
    | cons b bs =>
      have here := each a List.mem_cons_self b List.mem_cons_self
      have rest := ih fun c member d member' =>
        each c (List.mem_cons_of_mem _ member) d (List.mem_cons_of_mem _ member')
      rw [equalItems, Bool.and_eq_true, here, rest, List.forall₂_cons]

/-- Without reals, equality by value is structural equality. -/
theorem equal_iff_equals {a b : Value} (left : ¬ a.HasReal) (right : ¬ b.HasReal) :
    a.equal b = true ↔ Equals a b := by
  induction a using nestedInduction generalizing b with
  | list items ih =>
    cases b with
    | list bs =>
      rw [equal, equals_list_iff]
      refine equalItems_iff_equals fun a member b member' => ih a member ?_ ?_
      · exact HasReal.of_items left a member
      · exact HasReal.of_items right b member'
    | real x => exact absurd (.here x) right
    | _ => exact iff_of_false Bool.false_ne_true (by rintro ⟨⟩)
  | atom a single =>
    have compared : a.equal b = a.same b := by
      cases a with
      | list => cases single
      | real x => exact absurd (.here x) left
      | int m =>
        cases b with
        | real x => exact absurd (.here x) right
        | _ => rfl
      | _ => cases b <;> rfl
    rw [compared, same_iff_equals single left]

end Value

open Value in
/-- Where neighbours have the same structure, all operands do. -/
theorem equalChain_iff {vs : List Value} (noReals : ∀ v ∈ vs, ¬ v.HasReal) :
    equalChain vs = true ↔ ∀ v ∈ vs, ∀ w ∈ vs, Equals v w := by
  have neighbours : equalChain vs = true ↔ vs.IsChain Equals := by
    fun_induction equalChain vs with
    | case1 a b rest ih =>
      obtain ⟨left, others⟩ := List.forall_mem_cons.mp noReals
      have right := others b List.mem_cons_self
      rw [Bool.and_eq_true, equal_iff_equals left right, ih others, List.isChain_cons_cons]
    | case2 vs short =>
      cases vs with
      | nil => simp
      | cons a rest =>
        cases rest with
        | nil => simp
        | cons b rest => exact (short a b rest rfl).elim
  rw [neighbours, List.isChain_iff_pairwise]
  constructor
  · intro pairs v member w member'
    exact pairs.forall_of_forall (fun v member => .refl v (noReals v member)) member member'
  · intro all
    exact List.pairwise_of_forall_mem_list all

open Value in
/-- Without reals, the comparisons of neighbours decide about all pairs of operands. The two strict
orders fail, with a fault of type, exactly if some neighbours are neither two integers nor two
texts, wherever these stand. Otherwise `<` is true exactly if each operand is less than every later
one, and `>` says of a list what `<` says of the reversed one. Equality never fails, and is true
exactly if all operands have the same structure. -/
theorem neighbours_decide {vs : List Value} (noReals : ∀ v ∈ vs, ¬ v.HasReal) (e : FrameId)
    (s : Store) :
    (∀ order : Order, ¬ vs.IsChain Comparable ↔ ∃ cause,
      order.builtin.call vs e s = (.fault cause, s) ∧ cause.kind = .type ∧ cause.code = "EVAL050") ∧
    (vs.IsChain Comparable → ∃ answer, Builtin.less.call vs e s = (.value (.bool answer), s) ∧
      (answer = true ↔ vs.Pairwise Below)) ∧
    (∀ v, Builtin.greater.call vs e s = (.value v, s) ↔
      Builtin.less.call vs.reverse e s = (.value v, s)) ∧
    ∃ answer, Builtin.equal.call vs e s = (.value (.bool answer), s) ∧
      (answer = true ↔ ∀ v ∈ vs, ∀ w ∈ vs, Equals v w) := by
  refine ⟨fun order => ⟨fun apart => ?_, ?_⟩, fun comparable => ?_, fun v => ?_, ?_⟩
  · obtain ⟨a, b, failed⟩ := order.chain_of_not_isChain noReals apart
    exact ⟨_, Order.builtin_call_of_error failed e s, rfl, rfl⟩
  · rintro ⟨cause, failed, -⟩ comparable
    obtain ⟨answer, answered, -⟩ := order.chain_of_isChain comparable
    have given : order.builtin.call vs e s = (.value (.bool answer), s) :=
      Order.builtin_call_eq_value_iff.mpr ⟨answer, answered, rfl⟩
    cases failed.symm.trans given
  · obtain ⟨answer, answered, means⟩ := Order.less.chain_of_isChain comparable
    refine ⟨answer, Order.builtin_call_eq_value_iff.mpr ⟨answer, answered, rfl⟩, ?_⟩
    rw [means, Order.relates_less, List.isChain_iff_pairwise]
  · calc Order.greater.builtin.call vs e s = (.value v, s)
        ↔ ∃ answer, Order.greater.chain vs = .ok answer ∧ v = .bool answer :=
          Order.builtin_call_eq_value_iff
      _ ↔ ∃ answer, Order.less.chain vs.reverse = .ok answer ∧ v = .bool answer := by
          simp only [Order.greater_chain_eq_ok_iff noReals]
      _ ↔ Order.less.builtin.call vs.reverse e s = (.value v, s) :=
          Order.builtin_call_eq_value_iff.symm
  · exact ⟨equalChain vs, rfl, equalChain_iff noReals⟩

open Value in
/-- A pair that decides the answer does not hide a later one that cannot be compared. -/
theorem neighbours_decide_behind_answer :
    let vs : List Value := [.int 2, .int 1, .text "a"]
    (∀ v ∈ vs, ¬ v.HasReal) ∧ ¬ vs.IsChain Comparable ∧
      ∃ cause, Builtin.less.call vs 0 .empty = (.fault cause, .empty) ∧ cause.kind = .type ∧
        cause.code = "EVAL050" := by
  intro vs
  have noReals : ∀ v ∈ vs, ¬ v.HasReal := by
    intro v member real
    rcases real with ⟨x⟩ | _ <;> simp [vs] at member
  have apart : ¬ vs.IsChain Comparable := by
    intro chain
    rcases (List.isChain_cons_cons.mp (List.isChain_cons_cons.mp chain).2).1
  exact ⟨noReals, apart, ((neighbours_decide noReals 0 .empty).1 .less).mp apart⟩

end SmallLisp
