import SmallLisp.Fault

/-!
Arithmetic on any number of operands, folded from the left.

Integers are exact or reported: a step whose result has no 64 bits fails. When some operand is a
real, all are taken as doubles.
-/

namespace SmallLisp

inductive Operation where
  | add
  | subtract
  | multiply
  | modulo
deriving DecidableEq, Repr

namespace Operation

def name : Operation → String
  | add => "+"
  | subtract => "-"
  | multiply => "*"
  | modulo => "%"

/-- The result on no operands. -/
def unit? : Operation → Option Int64
  | add => some 0
  | multiply => some 1
  | subtract | modulo => none

/-- A whole number as an integer, or the report that it is none. -/
def exactly (op : Operation) (n : Int) : Except Fault Int64 :=
  match Number.word? n with
  | some w => .ok w
  | none => .error (.overflow op.name)

/-- One step on integers. The modulus of the least integer by -1 is reported, since the quotient is
no integer. -/
def onIntegers (op : Operation) (a b : Int64) : Except Fault Int64 :=
  match op with
  | add => op.exactly (a.toInt + b.toInt)
  | subtract => op.exactly (a.toInt - b.toInt)
  | multiply => op.exactly (a.toInt * b.toInt)
  | modulo =>
    if b = 0 then .error .zeroModulus
    else if a = Int64.minValue ∧ b = -1 then .error (.overflow op.name)
    else op.exactly (Number.wholeModulus a.toInt b.toInt)

def onReals (op : Operation) (x y : Float) : Float :=
  match op with
  | add => x + y
  | subtract => x - y
  | multiply => x * y
  | modulo => Number.realModulus x y

def integers? : List Value → Option (List Int64)
  | [] => some []
  | .int n :: vs => (integers? vs).map (n :: ·)
  | _ :: _ => none

/-- The numbers among the operands as doubles, or the first operand that is no number. -/
def reals : List Value → Except Value (List Float)
  | [] => .ok []
  | v :: vs =>
    match v.toFloat? with
    | some x => (reals vs).map (x :: ·)
    | none => .error v

/-- The left fold of a step that can fail. -/
def foldIntegers (op : Operation) : Int64 → List Int64 → Except Fault Int64
  | a, [] => .ok a
  | a, b :: bs =>
    match op.onIntegers a b with
    | .ok c => foldIntegers op c bs
    | .error e => .error e

/-- An operation on a list of operands. A text is reported first, then the first operand that is no
number. -/
def apply (op : Operation) (operands : List Value) : Except Fault Value :=
  if operands.any fun v => v.text?.isSome then .error .textOperand
  else
    match reals operands with
    | .error v => .error (.operand op.name v)
    | .ok [] =>
      match op.unit? with
      | some n => .ok (.int n)
      | none => .error (.noOperands op.name)
    | .ok (x :: xs) =>
      match integers? operands with
      | some (n :: ns) => (op.foldIntegers n ns).map .int
      | _ => .ok (.real (xs.foldl op.onReals x))

end Operation

end SmallLisp
