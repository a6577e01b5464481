import SmallLisp.Decimal.Shortest
import SmallLisp.Store.Basic
import SmallLisp.Text.Escaped
import SmallLisp.Value.Written

/-!
A form of values that shows their type, for inspection.

Unlike the written form it tells a symbol from a text and shows the parameters and the body of a
closure; the frame of a closure is left out, since it may hold the closure itself.
-/

namespace SmallLisp.Value

/-- Items between brackets, separated by a comma and a space. -/
def bracketed (items : List (List Char)) : List Char :=
  '[' :: (", ".toList.intercalate items) ++ [']']

def tagged (tag : String) (inside : List Char) : List Char :=
  tag.toList ++ '(' :: inside ++ [')']

mutual

/-- The characters of a value's inspected form. -/
def inspectChars : Value → List Char
  | .int n => tagged "Int" (integerText n.toInt)
  | .real x => tagged "Double" (Decimal.textWith Decimal.balanced x)
  | .bool true => tagged "Bool" "true".toList
  | .bool false => tagged "Bool" "false".toList
  | .marker name => tagged "Char" (Text.quoteText name)
  | .text s => tagged "Text" (bracketed (s.toList.map Text.quoteChar))
  | .symbol name => tagged "Symbol" (Text.quoteText name)
  | .list items => tagged "List" (bracketed (inspectItems items))
  | .closure _ params body _ =>
    tagged "Closure" ("Closure \x7b params: ".toList ++ bracketed (params.map Text.quoteText) ++
      ", body: ".toList ++ inspectChars body ++ " \x7d".toList)
  | .builtin b => tagged "Native" (tagged "Native" b.name.toList)
  | .nil => "Nil".toList

def inspectItems : List Value → List (List Char)
  | [] => []
  | v :: vs => inspectChars v :: inspectItems vs

end

def inspect (v : Value) : String :=
  String.ofList v.inspectChars

end SmallLisp.Value

namespace SmallLisp

/-- A frame's depth and the names it binds, for inspection. -/
def Store.inspectFrame (s : Store) (e : FrameId) : String :=
  "Env \x7b depth: " ++ Nat.repr (s.depth e) ++ ", names: " ++
    String.ofList (Value.bracketed ((s.names e).map Text.quoteText)) ++ " \x7d"

end SmallLisp
