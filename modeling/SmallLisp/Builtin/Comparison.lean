import SmallLisp.Fault
import SmallLisp.Value.Equality

/-!
Comparison of neighbouring operands.

A list of operands is in order when each operand and the next are. Integers are compared exactly,
numbers of mixed types as doubles, texts by code points; any other pair is an error, even behind a
pair that already decides the answer. Equality is never an error.
-/

namespace SmallLisp

inductive Order where
  | less
  | greater
deriving DecidableEq, Repr

namespace Order

def name : Order → String
  | less => "<"
  | greater => ">"

def holds {α : Type} [LT α] [DecidableLT α] (order : Order) (a b : α) : Bool :=
  match order with
  | less => decide (a < b)
  | greater => decide (b < a)

/-- Whether two values stand in the order, for values that can be compared. -/
def compare (order : Order) (a b : Value) : Except Fault Bool :=
  match a, b with
  | .int m, .int n => .ok (order.holds m.toInt n.toInt)
  | .text s, .text t => .ok (order.holds s t)
  | _, _ =>
    match a.toFloat?, b.toFloat? with
    | some x, some y => .ok (order.holds x y)
    | _, _ => .error (.incomparable order.name a b)

/-- Whether each operand stands in the order to the next; the first pair that cannot be compared is
reported. -/
def chain (order : Order) : List Value → Except Fault Bool
  | a :: b :: rest =>
    match order.compare a b with
    | .error e => .error e
    | .ok here =>
      match chain order (b :: rest) with
      | .error e => .error e
      | .ok there => .ok (here && there)
  | _ => .ok true

end Order

def equalChain : List Value → Bool
  | a :: b :: rest => a.equal b && equalChain (b :: rest)
  | _ => true

end SmallLisp
