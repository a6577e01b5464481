import SmallLisp.Builtin.Basic

/-!
Values, which are also the forms that programs are written in.

A closure keeps the frame it was made in and a stamp: the stamps of two closures agree exactly when
both come from the same evaluation of the same `fn` form, and closures are compared by stamp. The
absent value `nil` is not the empty list.
-/

namespace SmallLisp

/-- Frames are named by their number in the store, in the order of their creation. -/
abbrev FrameId := Nat

inductive Value where
  | int (n : Int64)
  | real (x : Float)
  | bool (b : Bool)
  /-- A name that stands for its own immediate call, such as `#:n`. -/
  | marker (name : String)
  | text (s : String)
  | symbol (name : String)
  | list (items : List Value)
  | closure (stamp : Nat) (params : List String) (body : Value) (scope : FrameId)
  | builtin (b : Builtin)
  | nil
deriving Inhabited

namespace Value

/-- Everything counts as true but `false`, the empty list and `nil`. -/
def truthy : Value → Bool
  | bool b => b
  | list items => !items.isEmpty
  | nil => false
  | _ => true

/-- Only closures and built-in procedures can be applied. -/
def isCallable : Value → Bool
  | closure .. => true
  | builtin _ => true
  | _ => false

def typeName : Value → String
  | int _ => "integer"
  | real _ => "real"
  | bool _ => "boolean"
  | marker _ => "marker"
  | text _ => "text"
  | symbol _ => "symbol"
  | list _ => "list"
  | closure .. => "function"
  | builtin _ => "builtin"
  | nil => "nil"

def symbolName? : Value → Option String
  | symbol name => some name
  | _ => none

def items? : Value → Option (List Value)
  | list items => some items
  | _ => none

def text? : Value → Option String
  | text s => some s
  | _ => none

/-- The first element of a list that has one. -/
def first? : Value → Option Value
  | list (v :: _) => some v
  | _ => none

/-- The elements of a list behind the first; none for any other value. -/
def others : Value → List Value
  | list (_ :: vs) => vs
  | _ => []

/-- The double that a number counts as next to other doubles. -/
def toFloat? : Value → Option Float
  | int n => some (Float.ofInt n.toInt)
  | real x => some x
  | _ => none

/-- A part of a list under construction: one element, or several in a row. -/
inductive Part where
  | one (v : Value)
  | several (vs : List Value)

def Part.items : Part → List Value
  | .one v => [v]
  | .several vs => vs

/-- The list of all elements of the parts, one level deep. -/
def ofParts (parts : List Part) : Value :=
  list (parts.flatMap Part.items)

end Value

end SmallLisp
