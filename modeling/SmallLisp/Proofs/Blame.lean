import SmallLisp.Evaluation.Evaluate
import SmallLisp.Proofs.RunLaws

/-!
What the faults of evaluation blame.

A built-in procedure blames its operands and nothing else (`call_blames`). Apart from special forms,
which may blame the shape of code, evaluation raises only `Fair` faults: they are not about shapes,
and a value that they call no function is none. So a property of all fair faults passes from the
evaluation of the parts of a form to the application of procedures, to sequences and to bindings. In
particular, evaluation is right whenever it says that a value is not a function (`apply_founded`).
-/

namespace SmallLisp

open Run

/-! ### Kinds of blame -/

namespace Fault

/-- The faults that blame the operands of a built-in procedure. -/
def blamesOperands : Fault → Bool
  | arity .. | noOperands _ | textOperand | operand .. | incomparable .. | notConcatenable
  | listText _ | overflow _ | zeroModulus => true
  | _ => false

/-- If the fault says that a value is not a function, then it is not. -/
def Founded (cause : Fault) : Prop :=
  ∀ v, cause = notFunction v → v.isCallable = false

/-- A founded fault that is not about the shape of code. -/
structure Fair (cause : Fault) : Prop where
  kind : cause.kind ≠ .shape
  founded : cause.Founded

/-- Only values that cannot be applied may be reported as no functions. -/
theorem founded_notFunction_iff {v : Value} : (notFunction v).Founded ↔ v.isCallable = false := by
  constructor
  · intro founded
    exact founded v rfl
  · intro plain w same
    cases same
    exact plain

/-- A fault about operands is about no function and no shape. -/
theorem fair_of_blamesOperands {cause : Fault} (blames : cause.blamesOperands = true) :
    cause.Fair := by
  constructor
  · intro shape
    cases cause <;> cases blames <;> cases shape
  · rintro v rfl
    cases blames

theorem fair_of_binding {cause : Fault} (binding : cause.kind = .binding) : cause.Fair := by
  constructor
  · rw [binding]
    decide
  · rintro v rfl
    cases binding

theorem founded_of_shape {cause : Fault} (shape : cause.kind = .shape) : cause.Founded := by
  rintro v rfl
  cases shape

end Fault

/-! ### Built-in procedures -/

/-- A result that, if it is a fault, blames the operands. -/
def BlamesOperands {α : Type} (r : Except Fault α) : Prop :=
  ∀ cause, r = .error cause → cause.blamesOperands = true

section BlamesOperands

variable {α β : Type}

theorem blames_ok (a : α) : BlamesOperands (.ok a) := by
  intro cause failed
  cases failed

theorem blames_error {cause : Fault} (blames : cause.blamesOperands = true) :
    BlamesOperands (.error cause : Except Fault α) := by
  intro cause' failed
  cases failed
  exact blames

/-- What becomes of a value later is not blamed. -/
theorem BlamesOperands.map {r : Except Fault α} (blames : BlamesOperands r) (f : α → β) :
    BlamesOperands (r.map f) := by
  cases r with
  | ok a => exact blames_ok (f a)
  | error cause => exact blames_error (blames cause rfl)

end BlamesOperands

namespace Operation

variable (op : Operation)

theorem exactly_blames (n : Int) : BlamesOperands (op.exactly n) := by
  unfold exactly
  split
  · exact blames_ok _
  · exact blames_error rfl

theorem onIntegers_blames (a b : Int64) : BlamesOperands (op.onIntegers a b) := by
  unfold onIntegers
  split
  · exact exactly_blames _ _
  · exact exactly_blames _ _
  · exact exactly_blames _ _
  · split
    · exact blames_error rfl
    · split
      · exact blames_error rfl
      · exact exactly_blames _ _

/-- Each step of the fold can only blame its operands, and so can the whole. -/
theorem foldIntegers_blames : ∀ (a : Int64) (bs : List Int64), BlamesOperands (op.foldIntegers a bs)
  | _, [] => blames_ok _
  | a, b :: bs => by
    unfold foldIntegers
    split
    · exact foldIntegers_blames _ bs
    · next cause failed => exact blames_error (onIntegers_blames op a b cause failed)

/-- Arithmetic blames its operands and nothing else. -/
theorem apply_blames (operands : List Value) : BlamesOperands (op.apply operands) := by
  unfold apply
  split
  · exact blames_error rfl
  · split
    · exact blames_error rfl
    · split
      · exact blames_ok _
      · exact blames_error rfl
    · split
      · exact (foldIntegers_blames op _ _).map _
      · exact blames_ok _

end Operation

theorem Order.compare_blames (order : Order) (a b : Value) :
    BlamesOperands (order.compare a b) := by
  unfold compare
  split
  · exact blames_ok _
  · exact blames_ok _
  · split
    · exact blames_ok _
    · exact blames_error rfl

/-- A comparison that fails names two of the operands. -/
theorem Order.chain_blames (order : Order) : ∀ operands, BlamesOperands (order.chain operands)
  | [] => blames_ok true
  | [_] => blames_ok true
  | a :: b :: rest => by
    unfold chain
    split
    · next cause failed => exact blames_error (compare_blames order a b cause failed)
    · split
      · next cause failed => exact blames_error (chain_blames order (b :: rest) cause failed)
      · exact blames_ok _

namespace Sequences

theorem rawTexts_blames (target : String) (operands : List Value) :
    BlamesOperands (rawTexts target operands) := by
  induction operands with
  | nil => exact blames_ok _
  | cons v vs ih =>
    unfold rawTexts
    split
    · exact blames_error rfl
    · exact ih.map _

theorem concat_blames (operands : List Value) : BlamesOperands (concat operands) := by
  unfold concat
  split
  · exact blames_ok _
  · split
    · exact blames_ok _
    · exact blames_error rfl

theorem cons_blames (operands : List Value) : BlamesOperands (cons operands) := by
  unfold cons
  split
  · exact blames_error rfl
  · split
    · exact blames_ok _
    · split
      · exact (rawTexts_blames _ _).map _
      · exact blames_ok _

theorem head_blames (operands : List Value) : BlamesOperands (head operands) := by
  unfold head
  split
  · exact blames_ok _
  · exact blames_error rfl

theorem tail_blames (operands : List Value) : BlamesOperands (tail operands) := by
  unfold tail
  split
  · exact blames_ok _
  · exact blames_ok _
  · exact blames_error rfl

theorem join_blames (operands : List Value) : BlamesOperands (join operands) := by
  unfold join
  split
  · exact blames_ok _
  · exact blames_ok _
  · exact blames_error rfl

end Sequences

/-- A built-in procedure fails only for its operands. -/
theorem call_blames (b : Builtin) (operands : List Value) (e : FrameId) :
    Raises (fun cause => cause.blamesOperands = true) (b.call operands e) := by
  cases b <;> unfold Builtin.call
  case add | subtract | multiply | modulo =>
    exact raises_ofExcept (Operation.apply_blames _ operands)
  case less | greater => exact raises_ofExcept ((Order.chain_blames _ operands).map _)
  case concat => exact raises_ofExcept (Sequences.concat_blames operands)
  case toText | toSymbol => exact raises_ofExcept ((Sequences.rawTexts_blames _ operands).map _)
  case cons => exact raises_ofExcept (Sequences.cons_blames operands)
  case head => exact raises_ofExcept (Sequences.head_blames operands)
  case tail => exact raises_ofExcept (Sequences.tail_blames operands)
  case join => exact raises_ofExcept (Sequences.join_blames operands)
  all_goals
    intro s cause t ran
    cases ran

/-! ### Frames -/

abbrev BlamesBinding {α : Type} (x : Run Store α) : Prop :=
  Raises (fun cause => cause.kind = .binding) x

theorem find_blames (e : FrameId) (name : String) : BlamesBinding (find e name) := by
  intro s cause t ran
  unfold find at ran
  split at ran <;> cases ran
  rfl

theorem requireUnbound_blames (e : FrameId) (name : String) :
    BlamesBinding (requireUnbound e name) := by
  intro s cause t ran
  unfold requireUnbound at ran
  split at ran <;> cases ran
  rfl

theorem bindName_blames (e : FrameId) (name : String) (v : Value) :
    BlamesBinding (bindName e name v) := by
  intro s cause t ran
  unfold bindName at ran
  split at ran <;> cases ran
  rfl

/-- Only a parameter that is bound twice could be blamed. -/
theorem bindParameters_blames (e : FrameId) :
    ∀ names operands, BlamesBinding (bindParameters e names operands)
  | [], _ => raises_pure ()
  | name :: names, operands =>
    (bindName_blames e name _).bind fun _ => bindParameters_blames e names operands.tail

/-! ### Evaluation -/

theorem Value.bindingName_fair {v : Value} {cause : Fault} (failed : v.bindingName = .error cause) :
    cause.Fair := by
  cases v <;> cases failed <;> exact ⟨by rintro ⟨⟩, by rintro _ ⟨⟩⟩

namespace Evaluator

variable {P : Fault → Prop} {eval : Evaluator}

/-- What no form raises, no sequence of forms raises. -/
theorem sequence_raises (raises : ∀ e form, Raises P (eval e form)) (e : FrameId) :
    ∀ forms, Raises P (eval.sequence e forms)
  | [] => raises_pure Value.nil
  | [form] => raises e form
  | form :: next :: forms => (raises e form).bind fun _ => sequence_raises raises e (next :: forms)

section Fair

variable (fair : ∀ cause : Fault, cause.Fair → P cause)

include fair

/-- A fault about a binding is covered by every property that such faults have. -/
theorem raises_of_blamesBinding {α : Type} {x : Run Store α} (blames : BlamesBinding x) :
    Raises P x := by
  intro s cause t ran
  exact fair cause (Fault.fair_of_binding (blames s cause t ran))

variable (raises : ∀ e form, Raises P (eval e form))

include raises

/-- An application raises what its body or its built-in procedure raises, or that there is no
function. -/
theorem apply_raises (f : Value) (operands : List Value) (e : FrameId) :
    Raises P (eval.apply f operands e) := by
  cases f with
  | builtin b =>
    intro s cause t ran
    exact fair cause (Fault.fair_of_blamesOperands (call_blames b operands e s cause t ran))
  | closure stamp params body scope =>
    have made : Raises P (newFrame scope) := by
      intro s cause t ran
      cases ran
    refine made.bind fun frame => Raises.bind ?_ fun _ => raises frame body
    exact raises_of_blamesBinding fair (bindParameters_blames frame params operands)
  | _ => exact raises_fail (fair _ ⟨by rintro ⟨⟩, Fault.founded_notFunction_iff.mpr rfl⟩)

theorem bind_raises (e : FrameId) (target form : Value) : Raises P (eval.bind e target form) := by
  have resolves : Raises P (eval.bindingTarget e target) := by
    unfold bindingTarget
    split
    · exact raises e _
    · exact raises_pure _
  have names : Raises P (eval.bindingName e target) := resolves.bind fun v =>
    raises_ofExcept fun cause failed => fair cause (Value.bindingName_fair failed)
  refine names.bind fun name => Raises.bind ?_ fun _ => (raises e form).bind fun v =>
    Raises.bind ?_ fun _ => raises_pure v
  · exact raises_of_blamesBinding fair (requireUnbound_blames e name)
  · exact raises_of_blamesBinding fair (bindName_blames e name v)

/-- Of a list, only the special form that it may be has to be looked at. -/
theorem list_raises {e : FrameId} {items : List Value}
    (special : ∀ (kind : SpecialForm) (operands : List Value),
      items = .symbol kind.name :: operands → Raises P (eval.special kind e operands)) :
    Raises P (eval.list e items) := by
  have applies : ∀ f operands, Raises P (do
      let args ← Run.each (eval e) operands
      eval.apply f args e) := fun f operands =>
    (raises_each (raises e) operands).bind fun args => apply_raises fair raises f args e
  have unknown : ∀ form, P (.unknownExpression form) := fun form =>
    fair _ ⟨by rintro ⟨⟩, by rintro _ ⟨⟩⟩
  unfold list
  split
  · exact raises_fail (unknown _)
  · next name operands =>
    split
    · next kind named =>
      rw [SpecialForm.ofName?_eq_some_iff.mp named] at special
      exact special kind operands rfl
    · refine Raises.bind ?_ fun f => applies f operands
      exact raises_of_blamesBinding fair (find_blames e name)
  · refine (raises e _).bind fun f => ?_
    split
    · exact applies f _
    · exact raises_fail (unknown _)

end Fair

/-! ### Founded faults -/

section Founded

variable (founded : ∀ e form, Raises Fault.Founded (eval e form))

include founded

/-- A special form reports a value as no function only if it is none. -/
theorem special_founded (kind : SpecialForm) (e : FrameId) (operands : List Value) :
    Raises Fault.Founded (eval.special kind e operands) := by
  have refused : ∀ {cause : Fault}, cause.kind = .shape →
      Raises Fault.Founded (.fail cause : Run Store Value) := fun shape =>
    raises_fail (Fault.founded_of_shape shape)
  unfold special
  split
  · exact raises_pure _
  · exact bind_raises (fun _ => Fault.Fair.founded) founded e _ _
  · refine (founded e _).bind fun test => ?_
    split
    · exact founded e _
    · exact founded e _
  · next params body =>
    have named : Raises Fault.Founded (.ofExcept (parameterNames .evaluation params) :
        Run Store (List String)) := by
      refine raises_ofExcept fun cause failed => ?_
      obtain ⟨detail, rfl⟩ := parameterNames_error failed
      exact Fault.founded_of_shape rfl
    refine named.bind fun names => ?_
    split
    · exact refused rfl
    · intro s cause t ran
      cases ran
  · exact sequence_raises founded e _
  all_goals exact refused rfl

theorem step_founded (e : FrameId) (form : Value) : Raises Fault.Founded (eval.step e form) := by
  have finds : ∀ name, Raises Fault.Founded (find e name) := fun name =>
    raises_of_blamesBinding (fun _ => Fault.Fair.founded) (find_blames e name)
  unfold step
  split
  · exact finds _
  · exact (finds _).bind fun f => apply_raises (fun _ => Fault.Fair.founded) founded f [] e
  · refine list_raises (fun _ => Fault.Fair.founded) founded fun kind operands _ => ?_
    exact special_founded founded kind e operands
  · exact raises_pure _

end Founded

end Evaluator

/-- By induction on the depth, a value that is reported as no function is none. -/
theorem evaluate_founded : ∀ depth e form, Raises Fault.Founded (evaluate depth e form)
  | 0, _, _ => raises_exhaust
  | depth + 1, e, form => Evaluator.step_founded (evaluate_founded depth) e form

/-- Whatever the application of a value calls no function is none. -/
theorem apply_founded (depth : Nat) (f : Value) (operands : List Value) (e : FrameId) :
    Raises Fault.Founded (apply depth f operands e) :=
  Evaluator.apply_raises (fun _ => Fault.Fair.founded) (evaluate_founded depth) f operands e

end SmallLisp
