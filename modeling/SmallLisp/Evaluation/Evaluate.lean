import SmallLisp.Builtin.Call
import SmallLisp.Evaluation.Parameters

/-!
Evaluation of forms in a frame, and application of procedures.

Each construct is defined for an arbitrary evaluator of its parts, and `evaluate` ties the knot: its
first argument is the number of forms that may be under evaluation inside one another, and a program
that nests deeper is `exhausted`. A name is bound only where it is unbound in the frame and in all
frames above it, and a closure is applied in a new frame below the one it was made in.
-/

namespace SmallLisp

def find (e : FrameId) (name : String) : Run Store Value := fun s =>
  match s.lookup? e name with
  | some v => (.value v, s)
  | none => (.fault (.unbound name), s)

/-- Fails if a name has a value as seen from the frame `e`. -/
def requireUnbound (e : FrameId) (name : String) : Run Store Unit := fun s =>
  if s.isBound e name then (.fault .alreadyBound, s) else (.value (), s)

/-- Binds a name in the frame `e`, which must not bind it yet. -/
def bindName (e : FrameId) (name : String) (v : Value) : Run Store Unit := fun s =>
  if s.binds e name then (.fault .alreadyBound, s) else (.value (), s.insert e name v)

def newFrame (parent : FrameId) : Run Store FrameId := fun s =>
  (.value s.nextFrame, s.addChild parent)

/-- Makes a closure over the frame `e`, with a stamp of its own. -/
def newClosure (params : List String) (body : Value) (e : FrameId) : Run Store Value := fun s =>
  (.value (.closure s.stamps params body e), { s with stamps := s.stamps + 1 })

/-- Binds parameters to operands by position. A missing operand counts as `nil`, and surplus operands
are dropped. -/
def bindParameters (e : FrameId) : List String → List Value → Run Store Unit
  | [], _ => pure ()
  | name :: names, operands => do
    bindName e name (operands.headD .nil)
    bindParameters e names operands.tail

/-- The name that a value gives to a binding. -/
def Value.bindingName : Value → Except Fault String
  | .symbol name => .ok name
  | .marker name => .ok name
  | .text name => .ok name
  | other => .error (.bindName other)

abbrev Evaluator := FrameId → Value → Run Store Value

namespace Evaluator

variable (eval : Evaluator)

/-- Applies a procedure to operands, from the frame `e`. -/
def apply (f : Value) (operands : List Value) (e : FrameId) : Run Store Value :=
  match f with
  | .builtin b => b.call operands e
  | .closure _ params body scope => do
    let frame ← newFrame scope
    bindParameters frame params operands
    eval frame body
  | other => .fail (.notFunction other)

/-- Evaluates forms one after the other and gives the last value, `nil` if there are none. -/
def sequence (e : FrameId) : List Value → Run Store Value
  | [] => pure .nil
  | [form] => eval e form
  | form :: forms => do
    let _ ← eval e form
    sequence e forms

/-- What the first operand of a `bind` form gives: a list is evaluated, anything else stands for
itself. -/
def bindingTarget (e : FrameId) : Value → Run Store Value
  | .list items => eval e (.list items)
  | other => pure other

/-- The name that a `bind` form binds. -/
def bindingName (e : FrameId) (target : Value) : Run Store String := do
  let resolved ← bindingTarget eval e target
  .ofExcept resolved.bindingName

/-- Evaluates a `bind` form. The name must be unbound before the value is evaluated, and still be
unbound in the frame afterwards. -/
def bind (e : FrameId) (target form : Value) : Run Store Value := do
  let name ← bindingName eval e target
  requireUnbound e name
  let v ← eval e form
  bindName e name v
  pure v

def special (form : SpecialForm) (e : FrameId) (operands : List Value) : Run Store Value :=
  match form, operands with
  | .quote, [datum] => pure datum
  | .bind, [target, value] => bind eval e target value
  | .branch, [test, success, failure] => do
    let t ← eval e test
    if t.truthy then eval e success else eval e failure
  | .function, params :: body => do
    let names ← .ofExcept (parameterNames .evaluation params)
    if body.isEmpty then .fail (.wrongOperands .function)
    else newClosure names (bodyForm body) e
  | .sequence, forms => sequence eval e forms
  | .quote, _ | .bind, _ | .branch, _ | .function, _ => .fail (.wrongOperands form)
  | .defineMacro, _ | .quasiquote, _ | .unquote, _ | .unquoteSplicing, _ =>
    .fail (.unexpanded form)

/-- Evaluates a list: a special form, or an application, in which the procedure comes before the
operands. -/
def list (e : FrameId) (items : List Value) : Run Store Value :=
  match items with
  | [] => .fail (.unknownExpression (.list items))
  | .symbol name :: operands =>
    match SpecialForm.ofName? name with
    | some form => special eval form e operands
    | none => do
      let f ← find e name
      let args ← Run.each (eval e) operands
      apply eval f args e
  | head :: operands => do
    let f ← eval e head
    if f.isCallable then do
      let args ← Run.each (eval e) operands
      apply eval f args e
    else .fail (.unknownExpression (.list items))

/-- Evaluates a form whose parts are evaluated by `eval`. A symbol stands for its value and a marker
for the call of its value; lists are special forms and applications; anything else is its own
value. -/
def step : Evaluator := fun e form =>
  match form with
  | .symbol name => find e name
  | .marker name => do
    let f ← find e name
    apply eval f [] e
  | .list items => list eval e items
  | other => pure other

end Evaluator

/-- Evaluates a form in a frame, with at most the given number of forms inside one another. -/
def evaluate : Nat → Evaluator
  | 0 => fun _ _ => .exhaust
  | depth + 1 => (evaluate depth).step

def apply (depth : Nat) (f : Value) (operands : List Value) (e : FrameId) : Run Store Value :=
  (evaluate depth).apply f operands e

end SmallLisp
