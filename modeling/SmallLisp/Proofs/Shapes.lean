import SmallLisp.Proofs.Blame
import SmallLisp.Proofs.Correspondence
import SmallLisp.Proofs.MacroFree

/-!
The shapes of special forms.

Evaluation asks a special form for certain operands, and some special forms it does not know at all.
`shaped` says of a list whether it is one that evaluation takes: exactly then its evaluation never
complains about the shape, as long as the evaluation of its parts does not (`shaped_iff_calm`). Forms
are looked at in the positions that hold expressions, the `Expression`s of a form.
-/

namespace SmallLisp

open Run

/-! ### Shapes and positions -/

/-- Whether evaluation takes a special form with the given operands. -/
def SpecialForm.accepts : SpecialForm → List Value → Bool
  | quote, [_] => true
  | bind, [_, _] => true
  | branch, [_, _, _] => true
  | function, params :: _ :: _ => (parameterNames .evaluation params).isOk
  | sequence, _ => true
  | _, _ => false

/-- Whether a list, if it is headed by a special form, has operands that evaluation takes. -/
def shaped (items : List Value) : Bool :=
  (specialHead? items).all fun kind => kind.accepts items.tail

/-- The elements of a list that are expressions: the operands of a branch or a sequence, the value of
a binding, the body of a function, and all elements of an application. -/
def parts (items : List Value) : List Value :=
  match specialHead? items with
  | none => items
  | some .branch | some .sequence => items.drop 1
  | some .bind | some .function => items.drop 2
  | some .quote | some .defineMacro | some .quasiquote | some .unquote | some .unquoteSplicing => []

/-- `Expression form p`: the expression `p` is the form, or stands in one of its positions. -/
inductive Expression : Value → Value → Prop
  | here {form : Value} : Expression form form
  | inside {items : List Value} {part p : Value} :
      part ∈ parts items → Expression part p → Expression (.list items) p

/-- All lists in the positions of a form satisfy `P`. -/
def AllLists (P : List Value → Prop) (form : Value) : Prop :=
  ∀ items, Expression form (.list items) → P items

/-- In all positions of a form, special forms have operands that evaluation takes, and those that
expansion removes do not occur. -/
def WellShaped : Value → Prop :=
  AllLists fun items => shaped items = true

/-- The expressions in a list are among its elements. -/
theorem parts_subset (items : List Value) : ∀ part ∈ parts items, part ∈ items := by
  intro part member
  unfold parts at member
  split at member
  · exact member
  · exact List.mem_of_mem_drop member
  · exact List.mem_of_mem_drop member
  · exact List.mem_of_mem_drop member
  · exact List.mem_of_mem_drop member
  all_goals cases member

theorem allLists_list_iff {P : List Value → Prop} {items : List Value} :
    AllLists P (.list items) ↔ P items ∧ ∀ part ∈ parts items, AllLists P part := by
  constructor
  · intro all
    exact ⟨all items .here, fun part member others inner => all others (.inside member inner)⟩
  · rintro ⟨own, inner⟩ others expression
    cases expression with
    | here => exact own
    | inside member expression => exact inner _ member others expression

/-- An atom has no list in it. -/
theorem allLists_of_not_list {P : List Value → Prop} {form : Value} (atom : form.items? = none) :
    AllLists P form := by
  intro items expression
  cases expression with
  | here => cases atom
  | inside => cases atom

/-! ### What evaluation says about shapes -/

/-- The faults that blame the shape of evaluated code. -/
def Fault.blamesShape (cause : Fault) : Prop :=
  cause.code ∈ ["EVAL001", "EVAL002", "EVAL003"]

/-- The computation never blames the shape of code. -/
def Calm {α : Type} (x : Run Store α) : Prop :=
  Raises (fun cause => ¬ cause.blamesShape) x

/-- A fair fault is not about the shape of code. -/
theorem Fault.Fair.not_blamesShape {cause : Fault} (fair : cause.Fair) : ¬ cause.blamesShape := by
  have other := fair.kind
  cases cause <;> simp_all [Fault.kind, blamesShape, code]

namespace Evaluator

variable {eval : Evaluator} (calm : ∀ e form, Calm (eval e form))

include calm

/-- A special form with operands that evaluation takes is evaluated without blaming its shape. -/
theorem special_calm {kind : SpecialForm} {operands : List Value}
    (accepted : kind.accepts operands = true) (e : FrameId) :
    Calm (eval.special kind e operands) := by
  unfold SpecialForm.accepts at accepted
  split at accepted
  · exact raises_pure _
  · exact bind_raises (fun _ => Fault.Fair.not_blamesShape) calm e _ _
  · refine (calm e _).bind fun test => ?_
    split
    · exact calm e _
    · exact calm e _
  · next params first more =>
    have named : Calm (.ofExcept (parameterNames .evaluation params)) := by
      refine raises_ofExcept fun cause failed => ?_
      rw [failed] at accepted
      cases accepted
    exact named.bind fun names s cause t ran => nomatch ran
  · exact sequence_raises calm e _
  · cases accepted

/-- A list of the right shape is evaluated without blame for shape. -/
theorem list_calm {items : List Value} (good : shaped items = true) (e : FrameId) :
    Calm (eval.list e items) := by
  refine list_raises (fun _ => Fault.Fair.not_blamesShape) calm ?_
  rintro kind operands rfl
  refine special_calm calm ?_ e
  simpa [shaped] using good

omit calm in
/-- A special form with other operands fails at once, for its shape. -/
theorem special_of_not_accepted {kind : SpecialForm} {operands : List Value}
    (refused : kind.accepts operands = false) (eval : Evaluator) (e : FrameId) (s : Store) :
    ∃ cause, cause.blamesShape ∧ eval.special kind e operands s = (.fault cause, s) := by
  have operandsBlamed : (Fault.wrongOperands kind).blamesShape := by simp [Fault.blamesShape, Fault.code]
  have expansionBlamed : (Fault.unexpanded kind).blamesShape := by simp [Fault.blamesShape, Fault.code]
  unfold special
  split
  · cases refused
  · cases refused
  · cases refused
  · next params body =>
    -- Evaluation looks at the parameters first, so a bad list of them is blamed even without a body.
    cases named : parameterNames .evaluation params with
    | ok names =>
      cases body with
      | nil => exact ⟨_, operandsBlamed, rfl⟩
      | cons first more => simp [SpecialForm.accepts, named, Except.isOk, Except.toBool] at refused
    | error cause =>
      obtain ⟨detail, rfl⟩ := parameterNames_error named
      exact ⟨_, by simp [Fault.blamesShape, Fault.code], rfl⟩
  · cases refused
  · exact ⟨_, operandsBlamed, rfl⟩
  · exact ⟨_, operandsBlamed, rfl⟩
  · exact ⟨_, operandsBlamed, rfl⟩
  · exact ⟨_, operandsBlamed, rfl⟩
  all_goals exact ⟨_, expansionBlamed, rfl⟩

end Evaluator

/-- A list has the shape that evaluation asks for exactly if its evaluation never blames the shape of
code, provided that the evaluation of its parts and of the procedures it calls does not. -/
theorem shaped_iff_calm {items : List Value} :
    shaped items = true ↔ ∀ eval : Evaluator, (∀ e form, Calm (eval e form)) →
      ∀ e, Calm (eval.step e (.list items)) := by
  constructor
  · intro good eval calm e
    exact Evaluator.list_calm calm good e
  · intro calm
    refine Bool.of_not_eq_false fun misshapen => ?_
    cases headed : specialHead? items with
    | none => simp [shaped, headed] at misshapen
    | some kind =>
      obtain ⟨operands, rfl⟩ := specialHead?_eq_some_iff.mp headed
      have refused : kind.accepts operands = false := by simpa [shaped] using misshapen
      obtain ⟨cause, blames, failed⟩ :=
        Evaluator.special_of_not_accepted refused (fun _ _ => .exhaust) 0 Store.empty
      refine calm (fun _ _ => .exhaust) (fun _ _ => raises_exhaust) 0 Store.empty cause Store.empty
        ?_ blames
      rw [← failed, ← Evaluator.list_special]
      rfl

end SmallLisp
