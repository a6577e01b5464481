import SmallLisp.Value.Basic

/-!
Two equalities of values.

`Value.same` tells types apart, compares doubles as numbers, so that `NaN` differs from itself and
the two zeros agree, and compares closures by stamp. `Value.equal` also lets an integer equal a real
of the same value, at any depth.
-/

namespace SmallLisp.Value

mutual

/-- Structural equality; closures agree when they have the same stamp. -/
def same : Value → Value → Bool
  | .int a, .int b => a == b
  | .real x, .real y => x == y
  | .bool a, .bool b => a == b
  | .marker a, .marker b => a == b
  | .text s, .text t => s == t
  | .symbol a, .symbol b => a == b
  | .list as, .list bs => sameItems as bs
  | .closure a .., .closure b .. => a == b
  | .builtin a, .builtin b => a == b
  | .nil, .nil => true
  | _, _ => false

def sameItems : List Value → List Value → Bool
  | [], [] => true
  | a :: as, b :: bs => same a b && sameItems as bs
  | _, _ => false

end

mutual

/-- Structural equality in which numbers are compared by value across their types. -/
def equal : Value → Value → Bool
  | .int a, .real y => Float.ofInt a.toInt == y
  | .real x, .int b => x == Float.ofInt b.toInt
  | .list as, .list bs => equalItems as bs
  | a, b => same a b

def equalItems : List Value → List Value → Bool
  | [], [] => true
  | a :: as, b :: bs => equal a b && equalItems as bs
  | _, _ => false

end

end SmallLisp.Value
