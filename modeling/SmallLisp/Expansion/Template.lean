import SmallLisp.Run

/-!
Templates: the operands of `quasiquote`.

A template becomes a form that builds the described list when it is evaluated. What is not unquoted
is quoted; an unquoted form stands for its value; a spliced form has its elements put in place. A
list is built from its end, by `join` for an element and by `++` for a splice. A list whose rest
happens to start with `unquote` is read as having that form for its rest.
-/

namespace SmallLisp.Template

variable {σ : Type}

/-- The form whose value is `datum`. -/
def quoted (datum : Value) : Value :=
  .list [.symbol SpecialForm.quote.name, datum]

def call (b : Builtin) (left right : Value) : Value :=
  .list [.symbol b.name, left, right]

/-- The operands of a list headed by `unquote-splicing`. -/
def spliceOperands? : Value → Option (List Value)
  | .list (.symbol name :: operands) =>
    if name = SpecialForm.unquoteSplicing.name then some operands else none
  | _ => none

mutual

/-- The form that builds a template, where `expand` expands the unquoted forms. -/
def build (expand : Value → Run σ Value) : Value → Run σ Value
  | .list items => buildItems expand items
  | atom => pure (quoted atom)

/-- The form that builds a list of templates. The rest of the list is expanded before its head. -/
def buildItems (expand : Value → Run σ Value) : List Value → Run σ Value
  | [] => pure (quoted (.list []))
  | head :: rest =>
    if head.symbolName? = some SpecialForm.unquote.name then
      match rest with
      | [operand] => expand operand
      | _ => .fail (.wrongShape .unquote (.list (head :: rest)))
    else if head.symbolName? = some SpecialForm.unquoteSplicing.name then
      .fail (.straySplice (.list (head :: rest)))
    else do
      let tail ← buildItems expand rest
      match spliceOperands? head with
      | some [operand] => do
        let spliced ← expand operand
        pure (call .concat spliced tail)
      | some _ => .fail (.wrongShape .unquoteSplicing head)
      | none => do
        let element ← build expand head
        pure (call .join element tail)

end

end SmallLisp.Template
