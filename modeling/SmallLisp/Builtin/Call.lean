import SmallLisp.Builtin.Arithmetic
import SmallLisp.Builtin.Comparison
import SmallLisp.Builtin.Sequences
import SmallLisp.Run
import SmallLisp.Store.Basic

/-!
Calling a built-in procedure on evaluated operands, from a frame.

Only `bound?` and `#:g` look at the frame, and only `#:n` and `#:g` change the store, by a line.
-/

namespace SmallLisp

/-- Whether a value names a binding that the frame `e` can see. -/
def Store.namesBinding (s : Store) (e : FrameId) : Value → Bool
  | .symbol name => s.isBound e name
  | .marker name => s.isBound e name
  | .text name => s.isBound e name
  | _ => false

/-- The names that the root above `e` binds, in one line. -/
def Store.rootLine (s : Store) (e : FrameId) : String :=
  String.intercalate " " (s.names (s.rootOf e))

namespace Builtin

def call (b : Builtin) (operands : List Value) (e : FrameId) : Run Store Value :=
  match b with
  | add => .ofExcept (Operation.add.apply operands)
  | subtract => .ofExcept (Operation.subtract.apply operands)
  | multiply => .ofExcept (Operation.multiply.apply operands)
  | modulo => .ofExcept (Operation.modulo.apply operands)
  | less => .ofExcept ((Order.less.chain operands).map .bool)
  | greater => .ofExcept ((Order.greater.chain operands).map .bool)
  | equal => pure (.bool (equalChain operands))
  | concat => .ofExcept (Sequences.concat operands)
  | isBoolean => pure (.bool (operands.all fun | .bool _ => true | _ => false))
  | isInteger => pure (.bool (operands.all fun | .int _ => true | _ => false))
  | isReal => pure (.bool (operands.all fun | .real _ => true | _ => false))
  | isText => pure (.bool (operands.all fun | .text _ => true | _ => false))
  | isSymbol => pure (.bool (operands.all fun | .symbol _ => true | _ => false))
  | isBound => .read fun s => .bool (operands.all (s.namesBinding e))
  | toText => .ofExcept ((Sequences.rawTexts "String" operands).map .text)
  | toSymbol => .ofExcept ((Sequences.rawTexts "Symbol" operands).map .symbol)
  | cons => .ofExcept (Sequences.cons operands)
  | head => .ofExcept (Sequences.head operands)
  | tail => .ofExcept (Sequences.tail operands)
  | list => pure (.list operands)
  | join => .ofExcept (Sequences.join operands)
  | newline => do
    Run.update (·.emit "")
    pure .nil
  | globals => do
    Run.update fun s => s.emit (s.rootLine e)
    pure .nil

end Builtin

end SmallLisp
