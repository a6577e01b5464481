import SmallLisp.Evaluation.Evaluate
import SmallLisp.Proofs.Comparison

/-!
Two evaluations side by side.

A `Correspondence` compares evaluations on two stores: of corresponding forms, with corresponding
values. It is `Lawful` when the operations on stores keep it and corresponding forms have the same
shape. Then `Correspondence.step_related` takes a relation between two evaluators of the parts of
forms to the forms themselves, once and for all: what remains for a particular correspondence is to
look at stores, built-in procedures and the shape of forms.
-/

namespace SmallLisp

structure Correspondence extends Comparison Store Store where
  /-- The values that correspond. -/
  values : Value → Value → Prop
  /-- The forms that correspond. -/
  forms : Value → Value → Prop

namespace Correspondence

variable (c : Correspondence)

/-! ### The shape of corresponding values and forms -/

/-- Values that do the same when they are applied. -/
inductive Procedures : Value → Value → Prop where
  | builtin {b : Builtin} :
      (∀ e as bs, List.Forall₂ c.values as bs → c.Related c.values (b.call as e) (b.call bs e)) →
      Procedures (.builtin b) (.builtin b)
  | closure {stamp stamp' : Nat} {params : List String} {body body' : Value} {scope : FrameId} :
      c.forms body body' →
      Procedures (.closure stamp params body scope) (.closure stamp' params body' scope)
  | other {f g : Value} : f.isCallable = false → g.isCallable = false →
      c.faults (.notFunction f) (.notFunction g) → Procedures f g

/-- First operands of `bind` that give corresponding values. -/
inductive Targets : Value → Value → Prop where
  | computed {items items' : List Value} :
      c.forms (.list items) (.list items') → Targets (.list items) (.list items')
  | stated {target target' : Value} : target.items? = none → target'.items? = none →
      c.values target target' → Targets target target'

/-- Operands with which a special form does the same. -/
inductive Operands : SpecialForm → List Value → List Value → Prop where
  | quote {datum datum' : Value} : c.values datum datum' → Operands .quote [datum] [datum']
  | bind {target target' form form' : Value} : c.Targets target target' → c.forms form form' →
      Operands .bind [target, form] [target', form']
  | branch {test test' success success' failure failure' : Value} :
      c.forms test test' → c.forms success success' → c.forms failure failure' →
      Operands .branch [test, success, failure] [test', success', failure']
  | function {params params' : Value} {names : List String} {body body' : List Value} :
      parameterNames .evaluation params = .ok names →
      parameterNames .evaluation params' = .ok names →
      body.isEmpty = false → body'.isEmpty = false → c.forms (bodyForm body) (bodyForm body') →
      Operands .function (params :: body) (params' :: body')
  | sequence {forms forms' : List Value} : List.Forall₂ c.forms forms forms' →
      Operands .sequence forms forms'
  | refused {kind : SpecialForm} {operands operands' : List Value} {cause cause' : Fault} :
      (∀ eval e, Evaluator.special eval kind e operands = .fail cause) →
      (∀ eval e, Evaluator.special eval kind e operands' = .fail cause') →
      c.faults cause cause' → Operands kind operands operands'

/-- Lists that are evaluated in the same way. -/
inductive Lists : List Value → List Value → Prop where
  | empty : Lists [] []
  | special {kind : SpecialForm} {operands operands' : List Value} :
      c.Operands kind operands operands' →
      Lists (.symbol kind.name :: operands) (.symbol kind.name :: operands')
  | call {name : String} {operands operands' : List Value} :
      SpecialForm.ofName? name = none → List.Forall₂ c.forms operands operands' →
      Lists (.symbol name :: operands) (.symbol name :: operands')
  | application {head head' : Value} {operands operands' : List Value} :
      head.symbolName? = none → head'.symbolName? = none → c.forms head head' →
      List.Forall₂ c.forms operands operands' → Lists (head :: operands) (head' :: operands')

/-- Forms that are evaluated in the same way. -/
inductive Shapes : Value → Value → Prop where
  | symbol (name : String) : Shapes (.symbol name) (.symbol name)
  | marker (name : String) : Shapes (.marker name) (.marker name)
  | list {items items' : List Value} : c.Lists items items' →
      c.faults (.unknownExpression (.list items)) (.unknownExpression (.list items')) →
      Shapes (.list items) (.list items')
  | datum {v w : Value} : (∀ eval e, Evaluator.step eval e v = pure v) →
      (∀ eval e, Evaluator.step eval e w = pure w) → c.values v w → Shapes v w

/-- The operations on stores keep the correspondence, corresponding values look alike from outside,
and corresponding forms have the same shape. -/
structure Lawful : Prop where
  find : ∀ e name, c.Related c.values (find e name) (find e name)
  requireUnbound : ∀ e name, c.Related Eq (requireUnbound e name) (requireUnbound e name)
  bindName : ∀ e name v w, c.values v w → c.Related Eq (bindName e name v) (bindName e name w)
  newFrame : ∀ e, c.Related Eq (newFrame e) (newFrame e)
  newClosure : ∀ params body body' e, c.forms body body' →
    c.Related c.values (newClosure params body e) (newClosure params body' e)
  nil : c.values .nil .nil
  truthy : ∀ v w, c.values v w → v.truthy = w.truthy
  bindingName : ∀ v w, c.values v w → Comparison.Results c.faults Eq v.bindingName w.bindingName
  procedures : ∀ f g, c.values f g → c.Procedures f g
  shapes : ∀ p q, c.forms p q → c.Shapes p q

/-- Evaluators that give corresponding results on corresponding forms. -/
def Evaluators (eval eval' : Evaluator) : Prop :=
  ∀ e p q, c.forms p q → c.Related c.values (eval e p) (eval' e q)

variable {c}

theorem Procedures.isCallable_eq {f g : Value} (procedures : c.Procedures f g) :
    f.isCallable = g.isCallable := by
  cases procedures with
  | builtin => rfl
  | closure => rfl
  | other left right => rw [left, right]

end Correspondence

/-! ### Equations of the evaluator -/

namespace Evaluator

variable (eval : Evaluator) (e : FrameId)

theorem apply_of_not_callable {f : Value} (plain : f.isCallable = false) (operands : List Value) :
    eval.apply f operands e = .fail (.notFunction f) := by
  cases f with
  | closure => cases plain
  | builtin => cases plain
  | _ => rfl

theorem bindingTarget_of_not_list {target : Value} (stated : target.items? = none) :
    eval.bindingTarget e target = pure target := by
  cases target with
  | list => cases stated
  | _ => rfl

/-- A list headed by the name of a special form is that form. -/
theorem list_special (kind : SpecialForm) (operands : List Value) :
    eval.list e (.symbol kind.name :: operands) = eval.special kind e operands := by
  simp [list]

/-- A name that is no special form is looked up before the operands are evaluated. -/
theorem list_call {name : String} (ordinary : SpecialForm.ofName? name = none)
    (operands : List Value) :
    eval.list e (.symbol name :: operands) =
      find e name >>= fun f => Run.each (eval e) operands >>= fun args => eval.apply f args e := by
  simp [list, ordinary]

/-- A list headed by another form is applied, if that form gives a procedure. -/
theorem list_application {head : Value} (compound : head.symbolName? = none)
    (operands : List Value) :
    eval.list e (head :: operands) = eval e head >>= fun f =>
      if f.isCallable then Run.each (eval e) operands >>= fun args => eval.apply f args e
      else .fail (.unknownExpression (.list (head :: operands))) := by
  cases head with
  | symbol => cases compound
  | _ => rfl

end Evaluator

/-! ### Evaluation keeps a correspondence -/

namespace Correspondence

variable {c : Correspondence} {eval eval' : Evaluator}

open Comparison

/-- Binding corresponding operands to the same parameters keeps stores in correspondence. -/
theorem bindParameters_related (lawful : c.Lawful) (e : FrameId) :
    ∀ (names : List String) {as bs : List Value}, List.Forall₂ c.values as bs →
      c.Related Eq (bindParameters e names as) (bindParameters e names bs)
  | [], _, _, _ => related_pure rfl
  | name :: names, _, _, .nil =>
    (lawful.bindName e name _ _ lawful.nil).bind fun _ _ _ =>
      bindParameters_related lawful e names .nil
  | name :: names, _, _, .cons first rest =>
    (lawful.bindName e name _ _ first).bind fun _ _ _ =>
      bindParameters_related lawful e names rest

/-- Corresponding procedures on corresponding operands end in correspondence. -/
theorem apply_related (lawful : c.Lawful) (evals : c.Evaluators eval eval') {f g : Value}
    {as bs : List Value} (procedures : c.Procedures f g) (operands : List.Forall₂ c.values as bs)
    (e : FrameId) : c.Related c.values (eval.apply f as e) (eval'.apply g bs e) := by
  cases procedures with
  | builtin calls => exact calls e as bs operands
  | @closure _ _ params _ _ scope bodies =>
    refine (lawful.newFrame scope).bind fun frame _ same => ?_
    subst same
    refine (bindParameters_related lawful frame params operands).bind fun _ _ _ => ?_
    exact evals frame _ _ bodies
  | other left right faults =>
    rw [Evaluator.apply_of_not_callable eval e left, Evaluator.apply_of_not_callable eval' e right]
    exact related_fail faults

theorem sequence_related (lawful : c.Lawful) (evals : c.Evaluators eval eval') (e : FrameId)
    {forms forms' : List Value} (related : List.Forall₂ c.forms forms forms') :
    c.Related c.values (eval.sequence e forms) (eval'.sequence e forms') := by
  induction related with
  | nil => exact related_pure lawful.nil
  | cons first rest ih =>
    cases rest with
    | nil => exact evals e _ _ first
    | cons => exact (evals e _ _ first).bind fun _ _ _ => ih

theorem bindingName_related (lawful : c.Lawful) (evals : c.Evaluators eval eval') (e : FrameId)
    {target target' : Value} (targets : c.Targets target target') :
    c.Related Eq (eval.bindingName e target) (eval'.bindingName e target') := by
  have resolved : c.Related c.values (eval.bindingTarget e target)
      (eval'.bindingTarget e target') := by
    cases targets with
    | computed forms => exact evals e _ _ forms
    | stated left right values =>
      rw [Evaluator.bindingTarget_of_not_list eval e left,
        Evaluator.bindingTarget_of_not_list eval' e right]
      exact related_pure values
  exact resolved.bind fun v w values => related_ofExcept (lawful.bindingName v w values)

/-- A binding of corresponding forms ends in correspondence, as the name is the same on both sides.
-/
theorem bind_related (lawful : c.Lawful) (evals : c.Evaluators eval eval') (e : FrameId)
    {target target' form form' : Value} (targets : c.Targets target target')
    (forms : c.forms form form') :
    c.Related c.values (eval.bind e target form) (eval'.bind e target' form') := by
  refine (bindingName_related lawful evals e targets).bind fun name _ same => ?_
  subst same
  refine (lawful.requireUnbound e name).bind fun _ _ _ => ?_
  refine (evals e _ _ forms).bind fun v w values => ?_
  exact (lawful.bindName e name v w values).bind fun _ _ _ => related_pure values

/-- A special form with corresponding operands ends in correspondence, one case for each form. -/
theorem special_related (lawful : c.Lawful) (evals : c.Evaluators eval eval') (e : FrameId)
    {kind : SpecialForm} {operands operands' : List Value}
    (related : c.Operands kind operands operands') :
    c.Related c.values (eval.special kind e operands) (eval'.special kind e operands') := by
  cases related with
  | quote values => exact related_pure values
  | bind targets forms => exact bind_related lawful evals e targets forms
  | branch test success failure =>
    refine (evals e _ _ test).bind fun v w values => ?_
    rw [lawful.truthy v w values]
    split
    · exact evals e _ _ success
    · exact evals e _ _ failure
  | @function _ _ names body body' params params' nonempty nonempty' bodies =>
    simp only [Evaluator.special, params, params', nonempty, nonempty', Run.ofExcept]
    exact lawful.newClosure names _ _ e bodies
  | sequence forms =>
    exact sequence_related lawful evals e forms
  | refused left right faults =>
    rw [left, right]
    exact related_fail faults

/-- Lists that are read in the same way are evaluated in correspondence. -/
theorem list_related (lawful : c.Lawful) (evals : c.Evaluators eval eval') (e : FrameId)
    {items items' : List Value} (lists : c.Lists items items')
    (unknown : c.faults (.unknownExpression (.list items)) (.unknownExpression (.list items'))) :
    c.Related c.values (eval.list e items) (eval'.list e items') := by
  have applies : ∀ {f g operands operands'}, c.values f g →
      List.Forall₂ c.forms operands operands' →
      c.Related c.values (Run.each (eval e) operands >>= fun args => eval.apply f args e)
        (Run.each (eval' e) operands' >>= fun args => eval'.apply g args e) :=
    fun values forms => (related_each (evals e) forms).bind fun _ _ args =>
      apply_related lawful evals (lawful.procedures _ _ values) args e
  cases lists with
  | empty => exact related_fail unknown
  | special operands =>
    rw [Evaluator.list_special, Evaluator.list_special]
    exact special_related lawful evals e operands
  | @call name _ _ ordinary operands =>
    rw [Evaluator.list_call eval e ordinary, Evaluator.list_call eval' e ordinary]
    exact (lawful.find e name).bind fun _ _ values => applies values operands
  | application compound compound' head operands =>
    -- The head is evaluated before the operands, and they only if it can be applied.
    rw [Evaluator.list_application eval e compound, Evaluator.list_application eval' e compound']
    refine (evals e _ _ head).bind fun f g values => ?_
    rw [(lawful.procedures f g values).isCallable_eq]
    split
    · exact applies values operands
    · exact related_fail unknown

/-- Evaluators that correspond on the parts of forms correspond on the forms. -/
theorem step_related (lawful : c.Lawful) (evals : c.Evaluators eval eval') :
    c.Evaluators eval.step eval'.step := by
  intro e p q forms
  cases lawful.shapes p q forms with
  | symbol name => exact lawful.find e name
  | marker name =>
    refine (lawful.find e name).bind fun f g values => ?_
    exact apply_related lawful evals (lawful.procedures f g values) .nil e
  | list lists unknown => exact list_related lawful evals e lists unknown
  | datum left right values =>
    rw [left, right]
    exact related_pure values

/-! ### A form beside itself -/

/-- The correspondence relates each good value and each good form to itself. -/
structure Selfsame (c : Correspondence) (good : Value → Prop) : Prop where
  values : ∀ v, good v → c.values v v
  forms : ∀ p, good p → c.forms p p
  faults : ∀ f, c.faults f f
  items : ∀ items, good (.list items) → ∀ v ∈ items, good v
  body : ∀ forms, (∀ v ∈ forms, good v) → good (bodyForm forms)

namespace Selfsame

variable {good : Value → Prop}

theorem forall₂_forms (self : c.Selfsame good) {forms : List Value} (all : ∀ v ∈ forms, good v) :
    List.Forall₂ c.forms forms forms :=
  List.forall₂_same.mpr fun v member => self.forms v (all v member)

/-- Good first operands of `bind` need no comparison of their own. -/
theorem targets (self : c.Selfsame good) {target : Value} (fine : good target) :
    c.Targets target target := by
  cases target with
  | list => exact .computed (self.forms _ fine)
  | _ => exact .stated rfl rfl (self.values _ fine)

/-- A function form makes a closure or is refused. -/
theorem function (self : c.Selfsame good) {params : Value} {body : List Value}
    (all : ∀ v ∈ body, good v) : c.Operands .function (params :: body) (params :: body) := by
  cases named : parameterNames .evaluation params with
  | error cause =>
    have fails : ∀ eval e, Evaluator.special eval .function e (params :: body) = .fail cause := by
      intro eval e
      simp only [Evaluator.special, named]
      rfl
    exact .refused fails fails (self.faults cause)
  | ok names =>
    cases body with
    | nil =>
      have fails : ∀ eval e, Evaluator.special eval .function e [params] =
          .fail (.wrongOperands .function) := by
        intro eval e
        simp only [Evaluator.special, named]
        rfl
      exact .refused fails fails (self.faults _)
    | cons first more =>
      exact .function named named rfl rfl (self.forms _ (self.body _ all))

/-- Good operands are fit for every special form. -/
theorem operands (self : c.Selfsame good) (kind : SpecialForm) {operands : List Value}
    (all : ∀ v ∈ operands, good v) : c.Operands kind operands operands := by
  have refused : ∀ cause, (∀ eval e, Evaluator.special eval kind e operands = .fail cause) →
      c.Operands kind operands operands :=
    fun cause fails => .refused fails fails (self.faults cause)
  cases kind with
  | quote =>
    match operands with
    | [datum] => exact .quote (self.values _ (all _ (by simp)))
    | [] => exact refused _ fun _ _ => rfl
    | _ :: _ :: _ => exact refused _ fun _ _ => rfl
  | bind =>
    match operands with
    | [target, form] =>
      exact .bind (self.targets (all _ (by simp))) (self.forms _ (all _ (by simp)))
    | [] => exact refused _ fun _ _ => rfl
    | [_] => exact refused _ fun _ _ => rfl
    | _ :: _ :: _ :: _ => exact refused _ fun _ _ => rfl
  | branch =>
    match operands with
    | [test, success, failure] =>
      exact .branch (self.forms _ (all _ (by simp))) (self.forms _ (all _ (by simp)))
        (self.forms _ (all _ (by simp)))
    | [] => exact refused _ fun _ _ => rfl
    | [_] => exact refused _ fun _ _ => rfl
    | [_, _] => exact refused _ fun _ _ => rfl
    | _ :: _ :: _ :: _ :: _ => exact refused _ fun _ _ => rfl
  | function =>
    match operands with
    | params :: body =>
      exact self.function fun v member => all v (List.mem_cons_of_mem _ member)
    | [] => exact refused _ fun _ _ => rfl
  | sequence => exact .sequence (self.forall₂_forms all)
  | defineMacro => exact refused _ fun _ _ => rfl
  | quasiquote => exact refused _ fun _ _ => rfl
  | unquote => exact refused _ fun _ _ => rfl
  | unquoteSplicing => exact refused _ fun _ _ => rfl

theorem lists (self : c.Selfsame good) {items : List Value} (all : ∀ v ∈ items, good v) :
    c.Lists items items := by
  match items with
  | [] => exact .empty
  | head :: operands =>
    have others : ∀ v ∈ operands, good v := fun v member => all v (List.mem_cons_of_mem _ member)
    cases named : head.symbolName? with
    | none =>
      exact .application named named (self.forms _ (all _ List.mem_cons_self))
        (self.forall₂_forms others)
    | some name =>
      cases head with
      | symbol =>
        cases named
        cases special : SpecialForm.ofName? name with
        | none => exact .call special (self.forall₂_forms others)
        | some kind =>
          rw [SpecialForm.ofName?_eq_some_iff.mp special]
          exact .special (self.operands kind others)
      | _ => cases named

/-- A good form has the shape of itself. -/
theorem shapes (self : c.Selfsame good) {p : Value} (fine : good p) : c.Shapes p p := by
  cases p with
  | symbol name => exact .symbol name
  | marker name => exact .marker name
  | list items => exact .list (self.lists (self.items items fine)) (self.faults _)
  | _ => exact .datum (fun _ _ => rfl) (fun _ _ => rfl) (self.values _ fine)

end Selfsame

end Correspondence

end SmallLisp
