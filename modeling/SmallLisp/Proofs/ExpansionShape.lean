import SmallLisp.Proofs.Comparison
import SmallLisp.Proofs.Shapes
import SmallLisp.Session

/-!
The shapes that expansion leaves.

Expansion checks the special forms it meets, so in what it leaves special forms have the shape that
evaluation asks for, but for one gap: an application whose head is itself a list is put together again
from what is left of its elements, and its new head may be the name of a special form. This happens if
the old head vanishes or becomes a symbol, and the new list is not checked.

To say that nothing else goes wrong, `expandRefusing` does what `expand` does but fails when a refused
list comes about in this way. A list of the wrong shape in the result is one that cannot be refused
(`expansion_wellShaped_iff`).
-/

namespace SmallLisp

open Run Comparison

/-! ### Forms put together from good ones -/

section Good

variable {P : List Value → Prop} (fair : ∀ items, shaped items = true → P items)

include fair

/-- A special form is fine if evaluation takes its operands and the parts are fine. -/
theorem allLists_special (kind : SpecialForm) (operands : List Value)
    (accepted : kind.accepts operands = true)
    (inner : ∀ part ∈ parts (.symbol kind.name :: operands), AllLists P part) :
    AllLists P (Expander.form kind operands) :=
  allLists_list_iff.mpr ⟨fair _ (by simp [shaped, accepted]), inner⟩

/-- A list without a special head asks for nothing but fine elements. -/
theorem allLists_application {items : List Value} (ordinary : specialHead? items = none)
    (inner : ∀ v ∈ items, AllLists P v) : AllLists P (.list items) :=
  allLists_list_iff.mpr ⟨fair _ (by simp [shaped, ordinary]),
    fun part member => inner part (parts_subset items part member)⟩

/-- Inside a quotation stand data, where no shape is asked for. -/
theorem allLists_quoted (datum : Value) : AllLists P (Template.quoted datum) :=
  allLists_special fair .quote [datum] rfl nofun

theorem allLists_call {b : Builtin} (ordinary : SpecialForm.ofName? b.name = none) {f g : Value}
    (left : AllLists P f) (right : AllLists P g) : AllLists P (Template.call b f g) := by
  refine allLists_application fair ordinary ?_
  simpa using ⟨allLists_of_not_list rfl, left, right⟩

/-- A body of several forms is a sequence, which takes any operands. -/
theorem allLists_bodyForm {forms : List Value} (inner : ∀ f ∈ forms, AllLists P f) :
    AllLists P (bodyForm forms) := by
  unfold bodyForm
  split
  · exact inner _ (by simp)
  · exact allLists_special fair .sequence forms rfl inner

end Good

/-! ### Two expanders side by side -/

/-- What an expander may leave of a form: good forms only, and an atom as it is. -/
def Leaves (P : List Value → Prop) (form : Value) (left : Option Value) : Prop :=
  (∀ f ∈ left, AllLists P f) ∧ (form.items? = none → left = some form)

namespace Expander

variable {leftEscapes rightEscapes : Option Fault → Prop} {P : List Value → Prop}
  (fair : ∀ items, shaped items = true → P items) {expand expand' : Expander}
  (related : ∀ form, (equal leftEscapes rightEscapes).Related (Agree (Leaves P form))
    (expand form) (expand' form))

include related in
theorem required_related (form : Value) :
    (equal leftEscapes rightEscapes).Related (Agree (AllLists P)) (expand.required form) (expand'.required form) := by
  refine (related form).agree_bind fun left leaves => related_pure ⟨rfl, ?_⟩
  cases left with
  | none => exact allLists_of_not_list rfl
  | some f => exact leaves.1 f rfl

include related in
/-- Of several forms good ones are left, and an atom in front stays there. -/
theorem all_related (forms : List Value) :
    (equal leftEscapes rightEscapes).Related (Agree fun fs => (∀ f ∈ fs, AllLists P f) ∧
      ∀ head rest, forms = head :: rest → head.items? = none → ∃ others, fs = head :: others)
      (expand.all forms) (expand'.all forms) := by
  refine (related_each_agree related forms).agree_bind fun left leaves => ?_
  have good : ∀ o ∈ left, ∀ f ∈ o, AllLists P f := by
    induction leaves with
    | nil => exact nofun
    | cons first _ ih => exact List.forall_mem_cons.mpr ⟨first.1, ih⟩
  refine related_pure ⟨rfl, fun f member => ?_, ?_⟩
  · obtain ⟨o, member, present⟩ := List.mem_filterMap.mp member
    exact good o member f present
  · rintro head rest rfl atom
    cases leaves with
    | cons first others =>
      rw [first.2 atom]
      exact ⟨_, rfl⟩

include fair related in
/-- The body of a function is expanded form by form, on both sides alike. -/
theorem function_related (params : Value) (body : List Value) :
    (equal leftEscapes rightEscapes).Related (Agree (AllLists P)) (expand.function params body)
      (expand'.function params body) := by
  unfold function
  cases named : parameterNames .expansion params with
  | error cause => exact related_fail rfl
  | ok names =>
    refine (all_related related body).agree_bind fun forms good => related_pure ⟨rfl, ?_⟩
    have body : AllLists P (if forms.isEmpty then .nil else bodyForm forms) := by
      split
      · exact allLists_of_not_list rfl
      · exact allLists_bodyForm fair good.1
    refine allLists_special fair .function _ ?_ ?_
    · simp [SpecialForm.accepts, parameterNames_phase named .evaluation, Except.isOk, Except.toBool]
    · simpa [parts] using body

include related in
theorem defineMacro_related (depth : Nat) (e : FrameId) (target procedure : Value) :
    (equal leftEscapes rightEscapes).Related Eq (expand.defineMacro depth e target procedure)
      (expand'.defineMacro depth e target procedure) := by
  unfold defineMacro
  split
  · split
    · exact related_self _
    · exact (required_related related procedure).agree_bind fun expanded _ => related_self _
  · exact related_self _

end Expander

section Template

variable {leftEscapes rightEscapes : Option Fault → Prop} {P : List Value → Prop}
  {expand expand' : Value → Run Workspace Value}

mutual

/-- What builds a template consists of quotations and calls, around the unquoted forms. -/
theorem Template.build_related (fair : ∀ items, shaped items = true → P items)
    (related : ∀ form, (equal leftEscapes rightEscapes).Related (Agree (AllLists P))
      (expand form) (expand' form)) : ∀ template : Value,
    (equal leftEscapes rightEscapes).Related (Agree (AllLists P)) (Template.build expand template)
      (Template.build expand' template)
  | .list items => Template.buildItems_related fair related items
  | .int _ | .real _ | .bool _ | .marker _ | .text _ | .symbol _ | .closure .. | .builtin _
  | .nil => related_pure ⟨rfl, allLists_quoted fair _⟩

theorem Template.buildItems_related (fair : ∀ items, shaped items = true → P items)
    (related : ∀ form, (equal leftEscapes rightEscapes).Related (Agree (AllLists P))
      (expand form) (expand' form)) : ∀ items : List Value,
    (equal leftEscapes rightEscapes).Related (Agree (AllLists P)) (Template.buildItems expand items)
      (Template.buildItems expand' items)
  | [] => related_pure ⟨rfl, allLists_quoted fair _⟩
  | head :: rest => by
    unfold Template.buildItems
    split
    · split
      · exact related _
      · exact related_fail rfl
    · split
      · exact related_fail rfl
      · refine (Template.buildItems_related fair related rest).agree_bind fun tail good => ?_
        split
        · exact (related _).agree_bind fun elements goodElements =>
            related_pure ⟨rfl, allLists_call fair rfl goodElements good⟩
        · exact related_fail rfl
        · exact (Template.build_related fair related head).agree_bind fun element goodElement =>
            related_pure ⟨rfl, allLists_call fair rfl goodElement good⟩

end

end Template

namespace Expander

variable {leftEscapes rightEscapes : Option Fault → Prop} {P : List Value → Prop}
  (fair : ∀ items, shaped items = true → P items) {expand expand' : Expander}
  (related : ∀ form, (equal leftEscapes rightEscapes).Related (Agree (Leaves P form))
    (expand form) (expand' form))

include fair related

/-- Each special form is put together again from parts that are fine. -/
theorem special_related (depth : Nat) (e : FrameId) (kind : SpecialForm) (operands : List Value) :
    (equal leftEscapes rightEscapes).Related (Agree fun left => ∀ f ∈ left, AllLists P f)
      (expand.special depth e kind operands) (expand'.special depth e kind operands) := by
  have required := required_related related
  have one : ∀ {f : Value}, AllLists P f → ∀ g ∈ some f, AllLists P g := by
    rintro f good g ⟨⟩
    exact good
  unfold special
  split
  · exact related_pure ⟨rfl, one (allLists_quoted fair _)⟩
  · refine (required _).agree_bind fun test goodTest => ?_
    refine (required _).agree_bind fun success goodSuccess => ?_
    refine (required _).agree_bind fun failure goodFailure => ?_
    refine related_pure ⟨rfl, one (allLists_special fair .branch _ rfl ?_)⟩
    simpa [parts] using ⟨goodTest, goodSuccess, goodFailure⟩
  · split
    · refine (required _).agree_bind fun value good => ?_
      refine related_pure ⟨rfl, one (allLists_special fair .bind _ rfl ?_)⟩
      simpa [parts] using good
    · refine (required _).agree_bind fun value good => ?_
      refine related_pure ⟨rfl, one (allLists_special fair .bind _ rfl ?_)⟩
      simpa [parts] using good
    · exact related_fail rfl
  · exact (function_related fair related _ _).agree_bind fun closure good =>
      related_pure ⟨rfl, one good⟩
  · refine (all_related related _).agree_bind fun forms good => ?_
    exact related_pure ⟨rfl, one (allLists_special fair .sequence _ rfl good.1)⟩
  · refine (defineMacro_related related depth e _ _).bind fun _ _ _ => ?_
    exact related_pure ⟨rfl, nofun⟩
  · exact (Template.build_related fair required _).agree_bind fun built good =>
      related_pure ⟨rfl, one good⟩
  all_goals exact related_fail rfl

/-- An application whose head is an atom keeps its head. -/
theorem application_related {head : Value} (atom : head.items? = none)
    (ordinary : ∀ operands, specialHead? (head :: operands) = none) (operands : List Value) :
    (equal leftEscapes rightEscapes).Related (Agree fun left => ∀ f ∈ left, AllLists P f)
      (expand.all (head :: operands) >>= fun forms => pure (some (.list forms)))
      (expand'.all (head :: operands) >>= fun forms => pure (some (.list forms))) := by
  refine (all_related related _).agree_bind fun forms ⟨inner, front⟩ => related_pure ⟨rfl, ?_⟩
  obtain ⟨others, rfl⟩ := front head operands rfl atom
  rintro f ⟨⟩
  exact allLists_application fair (ordinary others) inner

/-- A list that came about by expanding the elements of an application headed by a list. -/
def Rebuilt (P : List Value → Prop) (source f : Value) : Prop :=
  ∃ head operands items, source = .list (.list head :: operands) ∧ f = .list items ∧
    ∀ v ∈ items, AllLists P v

/-- Of a list good forms are left, but for an application headed by a list, which is put together
again from good forms. -/
theorem list_related (depth : Nat) (e : FrameId) (items : List Value) :
    (equal leftEscapes rightEscapes).Related
      (Agree fun left => ∀ f ∈ left, AllLists P f ∨ Rebuilt P (.list items) f)
      (expand.step depth e (.list items)) (expand'.step depth e (.list items)) := by
  have good : ∀ {x y : Run Workspace (Option Value)},
      (equal leftEscapes rightEscapes).Related (Agree fun left => ∀ f ∈ left, AllLists P f) x y →
      (equal leftEscapes rightEscapes).Related
        (Agree fun left => ∀ f ∈ left, AllLists P f ∨ Rebuilt P (.list items) f) x y :=
    fun related => related.mono fun _ _ agree => ⟨agree.1, fun f member => .inl (agree.2 f member)⟩
  cases items with
  | nil =>
    refine good (related_pure ⟨rfl, ?_⟩)
    rintro f ⟨⟩
    exact allLists_application fair rfl (List.forall_mem_nil _)
  | cons head operands =>
    cases head with
    | symbol name =>
      refine good ?_
      cases named : SpecialForm.ofName? name with
      | some kind =>
        simp only [step, named]
        exact special_related fair related depth e kind operands
      | none =>
        simp only [step, named]
        refine (related_self _).bind fun expander _ same => ?_
        subst same
        cases expander with
        | some expander =>
          refine (related_self _).bind fun produced _ same => ?_
          subst same
          exact (related produced).mono fun _ _ agree => ⟨agree.1, agree.2.1⟩
        | none =>
          have ordinary : ∀ operands, specialHead? (.symbol name :: operands) = none := fun _ => named
          exact application_related fair related rfl ordinary operands
    | list inner =>
      -- The head may vanish or become a symbol: of the new list only the elements are known.
      rw [step_application _ _ _ rfl, step_application _ _ _ rfl]
      refine (all_related related _).agree_bind fun forms all => related_pure ⟨rfl, ?_⟩
      rintro f ⟨⟩
      exact .inr ⟨inner, operands, forms, rfl, rfl, all.1⟩
    | _ =>
      rw [step_application _ _ _ rfl, step_application _ _ _ rfl]
      exact good (application_related fair related rfl (fun _ => rfl) operands)

/-- What is left of a list is fine, unless it was put together of an application headed by a list.
-/
theorem step_related (depth : Nat) (e : FrameId) (source : Value) :
    (equal leftEscapes rightEscapes).Related
      (Agree fun left => (∀ f ∈ left, AllLists P f ∨ Rebuilt P source f) ∧
        (source.items? = none → left = some source))
      (expand.step depth e source) (expand'.step depth e source) := by
  cases source with
  | list items =>
    exact (list_related fair related depth e items).mono
      fun left left' ⟨same, good⟩ => ⟨same, good, nofun⟩
  | _ =>
    refine related_pure ⟨rfl, ?_, fun _ => rfl⟩
    rintro f ⟨⟩
    exact .inl (allLists_of_not_list rfl)

end Expander

/-! ### Refusing lists that are put together -/

/-- Fails if a refused list has been put together from an application headed by a list. -/
def Expander.refuse (refused : List Value → Bool) (source : Value) (left : Option Value) :
    Run Workspace (Option Value) :=
  match source, left with
  | .list (.list _ :: _), some (.list items) =>
    if refused items then .fail (.unknownExpression (.list items)) else pure left
  | _, _ => pure left

/-- Expansion that fails where an application headed by a list would be put together as a refused
list. -/
def expandRefusing (refused : List Value → Bool) : Nat → FrameId → Expander
  | 0, _ => fun _ => .exhaust
  | depth + 1, e => fun source => do
    let left ← (expandRefusing refused depth e).step depth e source
    Expander.refuse refused source left

/-- The computations side by side are those of `expand` and `expandRefusing`; the latter is let off
when it refuses a list. -/
def refusal (refused : List Value → Bool) : Comparison Workspace Workspace :=
  equal (fun _ => False) fun ending =>
    ∃ items, refused items = true ∧ ending = some (.unknownExpression (.list items))

/-- A list is of the right shape, or it is not refused. -/
def Tolerated (refused : List Value → Bool) (items : List Value) : Prop :=
  shaped items = true ∨ refused items = false

/-- Either both sides go on alike, or the list is refused and the right side is let off. -/
theorem refuse_related {refused : List Value → Bool} {source : Value} {left : Option Value}
    (good : ∀ f ∈ left, AllLists (Tolerated refused) f ∨ Expander.Rebuilt (Tolerated refused) source f)
    (atom : source.items? = none → left = some source) :
    (refusal refused).Related (Agree (Leaves (Tolerated refused) source)) (pure left)
      (Expander.refuse refused source left) := by
  unfold Expander.refuse
  split
  · next head operands items =>
    split
    · next escapes =>
      exact fun _ _ _ => .rightFault ⟨items, escapes, rfl⟩
    · next tolerated =>
      refine related_pure ⟨rfl, ?_, nofun⟩
      rintro f ⟨⟩
      rcases good _ rfl with all | ⟨_, _, _, -, same, inner⟩
      · exact all
      · cases same
        refine allLists_list_iff.mpr ⟨.inr (by simpa using tolerated), fun part member => ?_⟩
        exact inner part (parts_subset items part member)
  · next other =>
    refine related_pure ⟨rfl, fun f member => ?_, atom⟩
    rcases good f member with all | ⟨head, operands, items, rfl, rfl, -⟩
    · exact all
    · exact absurd member (other head operands items rfl)

/-- Refusing lists makes no difference until one is refused, and what is left then holds no refused
list of the wrong shape. -/
theorem expandRefusing_related (refused : List Value → Bool) (e : FrameId) :
    ∀ (depth : Nat) (form : Value),
      (refusal refused).Related (Agree (Leaves (Tolerated refused) form)) (expand depth e form)
        (expandRefusing refused depth e form)
  | 0, _ => related_exhaust
  | depth + 1, form => by
    -- The step is the same on both sides; beside the refusal stands a step that does nothing.
    rw [← bind_pure (expand (depth + 1) e form)]
    have step := Expander.step_related (fun _ => .inl) (expandRefusing_related refused e depth)
      depth e form
    exact step.agree_bind fun left ⟨good, atom⟩ => refuse_related good atom

/-- While the form is expanded, an application headed by a list is put together as `items`: whoever
refuses this list gets no result. -/
def Rebuilds (depth : Nat) (e : FrameId) (form : Value) (w : Workspace) (items : List Value) : Prop :=
  ∀ refused : List Value → Bool, refused items = true → ∃ others t, refused others = true ∧
    expandRefusing refused depth e form w = (.fault (.unknownExpression (.list others)), t)

/-- A list of the wrong shape in the result of an expansion is one that was put together. -/
theorem rebuilds_of_not_shaped {depth : Nat} {e : FrameId} {form f : Value} {w w' : Workspace}
    {items : List Value} (expanded : expand depth e form w = (.value (some f), w'))
    (expression : Expression f (.list items)) (misshapen : shaped items = false) :
    Rebuilds depth e form w items := by
  intro refused hit
  have ends := expandRefusing_related refused e depth form w w rfl
  rw [expanded] at ends
  generalize expandRefusing refused depth e form w = result at ends ⊢
  cases ends with
  | value agree =>
    rcases agree.2.1 f rfl items expression with good | tolerated
    · simp [misshapen] at good
    · simp [hit] at tolerated
  | rightFault escapes =>
    obtain ⟨others, refusedOthers, same⟩ := escapes
    cases same
    exact ⟨others, _, refusedOthers, rfl⟩

/-- In all positions of an expanded form the shapes are right, and so evaluation has nothing to blame
there, exactly if they are right where an application headed by a list was put together. -/
theorem expansion_wellShaped_iff {depth : Nat} {e : FrameId} {form f : Value} {w w' : Workspace}
    (expanded : expand depth e form w = (.value (some f), w')) :
    (WellShaped f ↔ ∀ items, Expression f (.list items) → Rebuilds depth e form w items →
      shaped items = true) ∧
    (WellShaped f ↔ ∀ items, Expression f (.list items) → ∀ eval : Evaluator,
      (∀ e form, Calm (eval e form)) → ∀ e, Calm (eval.step e (.list items))) := by
  constructor
  · constructor
    · exact fun good items expression _ => good items expression
    · intro good items expression
      refine Bool.of_not_eq_false fun misshapen => ?_
      have rebuilds := rebuilds_of_not_shaped expanded expression misshapen
      simp [good items expression rebuilds] at misshapen
  · constructor
    · exact fun good items expression => shaped_iff_calm.mp (good items expression)
    · exact fun calm items expression => shaped_iff_calm.mpr (calm items expression)

/-- A macro definition at the head of an application vanishes, and the name behind it becomes the head
of a branch with one operand, on which evaluation fails. -/
theorem expansion_wellShaped_iff_vanished_head :
    let definition : Value := .list [.symbol "defmacro", .symbol "m", .symbol "+"]
    let form : Value := .list [definition, .symbol "if", .int 1]
    let f : Value := .list [.symbol "if", .int 1]
    let start : Workspace := Session.start.workspace
    (∃ w, expand 3 0 form start = (.value (some f), w)) ∧ ¬ WellShaped f ∧
      (∃ items, Expression f (.list items) ∧ Rebuilds 3 0 form start items ∧
        shaped items = false) ∧
      ∃ cause t, evaluate 1 0 f start.store = (.fault cause, t) ∧ cause.blamesShape := by
  intro definition form f start
  have expanded : expand 3 0 form start =
      (.value (some f), { start with macros := start.macros.define "m" (.builtin .add) }) := rfl
  have misshapen : ¬ WellShaped f := fun good => by cases good _ .here
  refine ⟨⟨_, expanded⟩, misshapen, ?_, _, _, rfl, by simp [Fault.blamesShape, Fault.code]⟩
  have exception := mt (expansion_wellShaped_iff expanded).1.mpr misshapen
  simpa using exception

end SmallLisp
