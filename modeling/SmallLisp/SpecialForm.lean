/-!
The special forms: lists whose head symbol fixes how their operands are treated.
-/

namespace SmallLisp

/-- The forms that are not applications. -/
inductive SpecialForm where
  | quote
  | bind
  | branch
  | function
  | sequence
  | defineMacro
  | quasiquote
  | unquote
  | unquoteSplicing
deriving DecidableEq, Repr

namespace SpecialForm

def name : SpecialForm → String
  | quote => "quote"
  | bind => "bind"
  | branch => "if"
  | function => "fn"
  | sequence => "do"
  | defineMacro => "defmacro"
  | quasiquote => "quasiquote"
  | unquote => "unquote"
  | unquoteSplicing => "unquote-splicing"

def ofName? : String → Option SpecialForm
  | "quote" => some quote
  | "bind" => some bind
  | "if" => some branch
  | "fn" => some function
  | "do" => some sequence
  | "defmacro" => some defineMacro
  | "quasiquote" => some quasiquote
  | "unquote" => some unquote
  | "unquote-splicing" => some unquoteSplicing
  | _ => none

/-- Every special form is found by its name. -/
@[simp] theorem ofName?_name (form : SpecialForm) : ofName? form.name = some form := by
  cases form <;> rfl

/-- A name heads one form at most, and each form has one name. -/
theorem ofName?_eq_some_iff {head : String} {form : SpecialForm} :
    ofName? head = some form ↔ head = form.name := by
  constructor
  · intro found
    unfold ofName? at found
    split at found <;> cases found <;> rfl
  · rintro rfl
    exact ofName?_name form

/-- The operands that the form asks for, as error messages put it; a sequence takes any. -/
def operands : SpecialForm → String
  | quote => "exactly one operand"
  | bind => "a name and a value"
  | branch => "a test, a success branch and an error branch"
  | function => "a parameter list and a body"
  | sequence => "any operands"
  | defineMacro => "a name and a procedure"
  | quasiquote => "exactly one operand"
  | unquote => "exactly one operand"
  | unquoteSplicing => "exactly one operand"

end SpecialForm

end SmallLisp
