import SmallLisp.Fault

/-!
Joining and taking apart lists and texts.
-/

namespace SmallLisp.Sequences

/-- The raw texts of all values in a row; a list has none. -/
def rawTexts (target : String) : List Value → Except Fault String
  | [] => .ok ""
  | v :: vs =>
    match v.rawText? with
    | none => .error (.listText target)
    | some s => (rawTexts target vs).map (s ++ ·)

/-- The elements of lists in a row, if all values are lists. -/
def lists? : List Value → Option (List Value)
  | [] => some []
  | .list items :: vs => (lists? vs).map (items ++ ·)
  | _ :: _ => none

/-- The characters of texts in a row, if all values are texts. -/
def texts? : List Value → Option String
  | [] => some ""
  | .text s :: vs => (texts? vs).map (s ++ ·)
  | _ :: _ => none

/-- Lists give a list and texts a text. -/
def concat (operands : List Value) : Except Fault Value :=
  match lists? operands with
  | some items => .ok (.list items)
  | none =>
    match texts? operands with
    | some s => .ok (.text s)
    | none => .error .notConcatenable

/-- Puts the first operand before the elements of the lists, or its text before the texts, that
follow it; with other operands the result is the list of them all. -/
def cons : List Value → Except Fault Value
  | [] => .error (.noOperands "cons")
  | first :: rest =>
    match lists? rest with
    | some items => .ok (.list (first :: items))
    | none =>
      match texts? rest with
      | some s => (rawTexts "String" [first]).map fun start => .text (start ++ s)
      | none => .ok (.list (first :: rest))

/-- The first element of a list, `nil` for anything without one. -/
def head : List Value → Except Fault Value
  | [v] => .ok (v.first?.getD .nil)
  | operands => .error (.arity "head" 1 operands.length)

/-- The list behind the first element, `nil` for anything that is no list. -/
def tail : List Value → Except Fault Value
  | [.list items] => .ok (.list (items.drop 1))
  | [_] => .ok .nil
  | operands => .error (.arity "tail" 1 operands.length)

/-- Puts a value before the elements of a list, or before a value that is no list. -/
def join : List Value → Except Fault Value
  | [first, .list items] => .ok (.list (first :: items))
  | [first, second] => .ok (.list [first, second])
  | operands => .error (.arity "join" 2 operands.length)

end SmallLisp.Sequences
