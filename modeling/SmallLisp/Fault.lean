import SmallLisp.Number.Remainder
import SmallLisp.SpecialForm
import SmallLisp.Value.Written

/-!
What can go wrong while forms are expanded and evaluated.

A fault is a cause. Its kind, its code and its message are read off the cause by `Fault.kind`,
`Fault.code` and `Fault.message`, and nothing else in the library words an error.
-/

namespace SmallLisp

inductive FaultKind where
  /-- A special form has the wrong shape. -/
  | shape
  /-- A name is unbound, or bound already. -/
  | binding
  /-- Operands do not have the types that an operation needs. -/
  | type
  /-- An integer result does not exist. -/
  | arithmetic
  /-- A value that is no procedure is applied, or a procedure to the wrong number of operands. -/
  | application
deriving DecidableEq, Repr

/-- Whether a parameter list is looked at in expansion or in evaluation. -/
inductive Phase where
  | expansion
  | evaluation
deriving DecidableEq, Repr

/-- The ways in which a form is no parameter list. -/
inductive ParameterFault where
  | notList (form : Value)
  | notSymbol (item : Value)
  | duplicate (name : String)

/-- The causes of failure in expansion and evaluation. -/
inductive Fault where
  /-- A special form is evaluated with the wrong operands. -/
  | wrongOperands (form : SpecialForm)
  /-- A form that expansion should have removed is evaluated. -/
  | unexpanded (form : SpecialForm)
  /-- The parameters of a function are not distinct symbols in a list. -/
  | parameters (phase : Phase) (cause : ParameterFault)
  /-- A special form is expanded with the wrong operands. -/
  | wrongShape (form : SpecialForm) (got : Value)
  /-- The name in a `bind` form is neither a symbol nor computed. -/
  | bindTarget (got : Value)
  /-- The name in a `defmacro` form is no symbol. -/
  | macroName (got : Value)
  /-- A `defmacro` form names a special form. -/
  | macroSpecial (name : String)
  /-- The procedure in a `defmacro` form cannot be applied. -/
  | macroProcedure (got : Value)
  /-- An unquotation stands outside of every template. -/
  | strayUnquote (form : Value)
  /-- A splice stands where there is no list to splice into. -/
  | straySplice (form : Value)
  | unbound (name : String)
  | alreadyBound
  /-- A name leads to a value that cannot be applied. -/
  | notFunction (value : Value)
  /-- A list is no special form and its head gives nothing that can be applied. -/
  | unknownExpression (form : Value)
  | arity (name : String) (expected got : Nat)
  | noOperands (name : String)
  /-- A text among the operands of arithmetic. -/
  | textOperand
  /-- An operand of arithmetic that is no number. -/
  | operand (name : String) (value : Value)
  | incomparable (name : String) (left right : Value)
  | notConcatenable
  /-- A list has no text; `target` is what the text was wanted for. -/
  | listText (target : String)
  /-- A value that cannot name a binding. -/
  | bindName (value : Value)
  | overflow (name : String)
  | zeroModulus

namespace Fault

def kind : Fault → FaultKind
  | wrongOperands _ | unexpanded _ | parameters .. | wrongShape .. | bindTarget _ | macroName _
  | macroSpecial _ | strayUnquote _ | straySplice _ => .shape
  | unbound _ | alreadyBound => .binding
  | macroProcedure _ | notFunction _ | unknownExpression _ | arity .. | noOperands _ => .application
  | textOperand | operand .. | incomparable .. | notConcatenable | listText _ | bindName _ => .type
  | overflow _ | zeroModulus => .arithmetic

def code : Fault → String
  | wrongOperands _ => "EVAL001"
  | unexpanded _ => "EVAL002"
  | parameters .evaluation _ => "EVAL003"
  | parameters .expansion _ => "EXP003"
  | wrongShape .. => "EXP001"
  | bindTarget _ => "EXP002"
  | macroName _ | macroSpecial _ => "EXP004"
  | macroProcedure _ => "EXP005"
  | strayUnquote _ => "EXP006"
  | straySplice _ => "EXP007"
  | unbound _ => "EVAL010"
  | alreadyBound => "EVAL011"
  | notFunction _ => "EVAL020"
  | unknownExpression _ => "EVAL030"
  | arity .. | noOperands _ => "EVAL040"
  | textOperand | operand .. | incomparable .. => "EVAL050"
  | notConcatenable => "EVAL051"
  | listText _ => "EVAL052"
  | bindName _ => "EVAL053"
  | overflow _ => "EVAL060"
  | zeroModulus => "EVAL061"

/-- A value as messages name it: its type, then its written form. -/
def described (v : Value) : String :=
  "`" ++ v.typeName ++ "` (" ++ v.written ++ ")"

def parameterMessage : ParameterFault → String
  | .notList form => "fn: parameters must be a list, got " ++ form.written
  | .notSymbol item => "fn: parameter " ++ item.written ++ " is not a symbol"
  | .duplicate name => "fn: duplicate parameter " ++ name

def message : Fault → String
  | wrongOperands form => form.name ++ " expects " ++ form.operands
  | unexpanded form => form.name ++ " must be macro-expanded before evaluation"
  | parameters _ cause => parameterMessage cause
  | wrongShape form got => form.name ++ " expects " ++ form.operands ++ ", got " ++ got.written
  | bindTarget got => "bind: name must be a symbol or a computed list, got " ++ got.written
  | macroName got => "defmacro: name must be a symbol, got " ++ got.written
  | macroSpecial name => "defmacro: cannot redefine special form " ++ name
  | macroProcedure got => "defmacro: " ++ got.written ++ " is not a function"
  | strayUnquote form => form.written ++ " outside of a quasiquote template"
  | straySplice form => form.written ++ " cannot be spliced outside of a list"
  | unbound name => "Cannot find var in ENV: " ++ name
  | alreadyBound => "Var already bound"
  | notFunction value => described value ++ " is not a function"
  | unknownExpression form => "Cannot evaluate unknown expression: " ++ form.written
  | arity name expected got =>
    name ++ ": expected " ++ Nat.repr expected ++ " argument(s) but got " ++ Nat.repr got
  | noOperands name => name ++ ": expected at least 1 argument(s) but got 0"
  | textOperand => "Types mismatch, can't add String to Number"
  | operand name value =>
    "unsupported operand type for " ++ name ++ " operator: " ++ described value
  | incomparable name left right =>
    name ++ ": cannot compare " ++ described left ++ " with " ++ described right
  | notConcatenable => "Can't concatenate values. Please use + instead"
  | listText target => "Can't cast List to " ++ target
  | bindName value => "bind: cannot use " ++ described value ++ " as a name"
  | overflow name => name ++ ": integer overflow"
  | zeroModulus => "%: divided by 0"

end Fault

end SmallLisp
