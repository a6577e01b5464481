/-!
The built-in procedures and the names they are bound to in a fresh root frame.
-/

namespace SmallLisp

inductive Builtin where
  | add
  | subtract
  | multiply
  | modulo
  | less
  | greater
  | equal
  | concat
  | isBoolean
  | isInteger
  | isReal
  | isText
  | isSymbol
  | isBound
  | toText
  | toSymbol
  | cons
  | head
  | tail
  | list
  | join
  | newline
  | globals
deriving DecidableEq, Repr

namespace Builtin

def all : List Builtin :=
  [add, subtract, multiply, modulo, less, greater, equal, concat, isBoolean, isInteger, isReal,
    isText, isSymbol, isBound, toText, toSymbol, cons, head, tail, list, join, newline, globals]

theorem mem_all (b : Builtin) : b ∈ all := by
  cases b <;> simp [all]

/-- The name a built-in procedure is bound to. -/
def name : Builtin → String
  | add => "+"
  | subtract => "-"
  | multiply => "*"
  | modulo => "%"
  | less => "<"
  | greater => ">"
  | equal => "="
  | concat => "++"
  | isBoolean => "bool?"
  | isInteger => "fixnum?"
  | isReal => "double?"
  | isText => "str?"
  | isSymbol => "sym?"
  | isBound => "bound?"
  | toText => "str!"
  | toSymbol => "sym!"
  | cons => "cons"
  | head => "head"
  | tail => "tail"
  | list => "list"
  | join => "join"
  | newline => "#:n"
  | globals => "#:g"

def ofName? (n : String) : Option Builtin :=
  all.find? (·.name = n)

@[simp] theorem ofName?_name (b : Builtin) : ofName? b.name = some b := by
  cases b <;> decide

/-- No two built-in procedures share a name. -/
theorem name_injective {a b : Builtin} (h : a.name = b.name) : a = b := by
  have := congrArg ofName? h
  simpa using this

end Builtin

end SmallLisp
