import SmallLisp.Evaluation.Evaluate
import SmallLisp.Expansion.MacroTable
import SmallLisp.Expansion.Template

/-!
Expansion: removing macros and templates from a form before it is evaluated.

Expansion also checks the shape of special forms. It goes into the parts of a form that are
expressions and leaves the rest alone, such as the operand of `quote` and the name in `bind`. A form
that defines a macro leaves nothing behind. The call of a macro is replaced by the expansion of what
its expander makes of the operands as they stand.
-/

namespace SmallLisp

/-- What expansion works on: the store in which expanders run, and the macros. -/
structure Workspace where
  store : Store
  macros : MacroTable

namespace Workspace

def onStore {α : Type} (x : Run Store α) : Run Workspace α := fun ⟨store, macros⟩ =>
  let (outcome, store) := x store
  (outcome, ⟨store, macros⟩)

end Workspace

/-- An expander of forms; the result is missing when the form leaves nothing behind. -/
abbrev Expander := Value → Run Workspace (Option Value)

namespace Expander

variable (expand : Expander)

/-- Expands a form where a form is needed: if nothing is left, `nil` takes the place. -/
def required (form : Value) : Run Workspace Value := do
  let expanded ← expand form
  pure (expanded.getD .nil)

/-- Expands forms from left to right and leaves out those of which nothing is left. -/
def all (forms : List Value) : Run Workspace (List Value) := do
  let expanded ← Run.each expand forms
  pure (expanded.filterMap id)

/-- A list headed by the name of a special form. -/
def form (special : SpecialForm) (operands : List Value) : Value :=
  .list (.symbol special.name :: operands)

/-- Expands a function. The body becomes one form, `nil` if nothing is left of it. -/
def function (params : Value) (body : List Value) : Run Workspace Value := do
  let _ ← .ofExcept (parameterNames .expansion params)
  let forms ← all expand body
  pure (form .function [params, if forms.isEmpty then .nil else bodyForm forms])

/-- Defines a macro: the procedure is expanded and evaluated in the frame `e` first. -/
def defineMacro (depth : Nat) (e : FrameId) (target procedure : Value) : Run Workspace Unit :=
  match target with
  | .symbol name =>
    if (SpecialForm.ofName? name).isSome then .fail (.macroSpecial name)
    else do
      let expanded ← required expand procedure
      let value ← Workspace.onStore (evaluate depth e expanded)
      if value.isCallable then
        Run.update fun w => { w with macros := w.macros.define name value }
      else .fail (.macroProcedure value)
  | other => .fail (.macroName other)

def special (depth : Nat) (e : FrameId) (kind : SpecialForm) (operands : List Value) :
    Run Workspace (Option Value) :=
  let whole := form kind operands
  match kind, operands with
  | .quote, [_] => pure (some whole)
  | .branch, [test, success, failure] => do
    let test ← required expand test
    let success ← required expand success
    let failure ← required expand failure
    pure (some (form .branch [test, success, failure]))
  | .bind, [target, value] =>
    match target with
    | .symbol _ | .list _ => do
      let value ← required expand value
      pure (some (form .bind [target, value]))
    | other => .fail (.bindTarget other)
  | .function, params :: first :: more => do
    let closure ← function expand params (first :: more)
    pure (some closure)
  | .sequence, forms => do
    let forms ← all expand forms
    pure (some (form .sequence forms))
  | .defineMacro, [target, procedure] => do
    defineMacro expand depth e target procedure
    pure none
  | .quasiquote, [template] => do
    let built ← Template.build (required expand) template
    pure (some built)
  | .unquote, _ | .unquoteSplicing, _ => .fail (.strayUnquote whole)
  | .quote, _ | .branch, _ | .bind, _ | .function, _ | .defineMacro, _ | .quasiquote, _ =>
    .fail (.wrongShape kind whole)

/-- Expands a form whose parts are expanded by `expand`, with macros and procedures run from the
frame `e`. -/
def step (depth : Nat) (e : FrameId) : Expander := fun source =>
  match source with
  | .list [] => pure (some source)
  | .list (.symbol name :: operands) =>
    match SpecialForm.ofName? name with
    | some kind => special expand depth e kind operands
    | none => do
      match ← Run.read fun w => w.macros.get? name with
      | some expander => do
        let produced ← Workspace.onStore (apply depth expander operands e)
        expand produced
      | none => do
        let forms ← all expand (.symbol name :: operands)
        pure (some (.list forms))
  | .list items => do
    let forms ← all expand items
    pure (some (.list forms))
  | atom => pure (some atom)

end Expander

/-- Expands a form, with at most the given number of forms inside one another. -/
def expand : Nat → FrameId → Expander
  | 0, _ => fun _ => .exhaust
  | depth + 1, e => (expand depth e).step depth e

end SmallLisp
