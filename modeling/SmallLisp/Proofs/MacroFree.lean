import SmallLisp.Expansion.Expand
import SmallLisp.Proofs.RunLaws

/-!
Expansion where no macro is defined.

A form in which no list is headed by `defmacro`, expanded with an empty macro table, leaves the
workspace alone and gives a form (`expand_rests`). `Value.avoids` is the condition on forms: it names
the special forms that no list in the form is headed by.
-/

namespace SmallLisp

open Run

/-! ### The heads of lists -/

/-- The special form that a list is headed by. -/
def specialHead? : List Value → Option SpecialForm
  | .symbol name :: _ => SpecialForm.ofName? name
  | _ => none

@[simp] theorem specialHead?_name (kind : SpecialForm) (operands : List Value) :
    specialHead? (.symbol kind.name :: operands) = some kind := by
  simp [specialHead?]

/-- Only lists that start with its name are headed by a special form. -/
theorem specialHead?_eq_some_iff {items : List Value} {kind : SpecialForm} :
    specialHead? items = some kind ↔ ∃ operands, items = .symbol kind.name :: operands := by
  constructor
  · intro headed
    unfold specialHead? at headed
    split at headed
    · next name operands =>
      rw [SpecialForm.ofName?_eq_some_iff] at headed
      exact ⟨operands, by rw [headed]⟩
    · cases headed
  · rintro ⟨operands, rfl⟩
    exact specialHead?_name kind operands

namespace Value

mutual

/-- No list in a form is headed by one of the given special forms. -/
def avoids (heads : List SpecialForm) : Value → Bool
  | .list items => (specialHead? items).all (fun kind => !heads.contains kind) && allAvoid heads items
  | _ => true

def allAvoid (heads : List SpecialForm) : List Value → Bool
  | [] => true
  | v :: vs => avoids heads v && allAvoid heads vs

end

theorem allAvoid_iff {heads : List SpecialForm} {vs : List Value} :
    allAvoid heads vs = true ↔ ∀ v ∈ vs, v.avoids heads = true := by
  induction vs with
  | nil => simp [allAvoid]
  | cons v vs ih => simp [allAvoid, ih]

/-- A list avoids special forms if none of them heads it and its elements avoid them. -/
theorem avoids_list_iff {heads : List SpecialForm} {items : List Value} :
    (list items).avoids heads = true ↔
      (∀ kind, specialHead? items = some kind → kind ∉ heads) ∧
        ∀ v ∈ items, v.avoids heads = true := by
  rw [avoids, Bool.and_eq_true, allAvoid_iff]
  cases specialHead? items <;> simp

end Value

theorem Template.spliceOperands?_eq_some_iff {v : Value} {operands : List Value} :
    Template.spliceOperands? v = some operands ↔
      v = .list (.symbol SpecialForm.unquoteSplicing.name :: operands) := by
  constructor
  · intro splice
    unfold Template.spliceOperands? at splice
    split at splice
    · split at splice
      · next named =>
        cases splice
        rw [named]
      · cases splice
    · cases splice
  · rintro rfl
    simp [Template.spliceOperands?]

/-! ### Equations of the expander -/

namespace Expander

variable (expand : Expander) (depth : Nat) (e : FrameId)

/-- Special forms are expanded by rules of their own, before macros are looked at. -/
theorem step_special (kind : SpecialForm) (operands : List Value) :
    expand.step depth e (.list (.symbol kind.name :: operands)) =
      expand.special depth e kind operands := by
  simp [step]

/-- A name that is no macro is left, with its operands expanded. -/
theorem step_call {name : String} (ordinary : SpecialForm.ofName? name = none) {w : Workspace}
    (undefined : w.macros.get? name = none) (operands : List Value) :
    expand.step depth e (.list (.symbol name :: operands)) w =
      (expand.all (.symbol name :: operands) >>= fun forms => pure (some (.list forms))) w := by
  simp only [step, ordinary]
  rw [bind_apply]
  simp [Run.read, undefined]

theorem step_application {head : Value} (compound : head.symbolName? = none)
    (operands : List Value) :
    expand.step depth e (.list (head :: operands)) =
      expand.all (head :: operands) >>= fun forms => pure (some (.list forms)) := by
  cases head with
  | symbol => cases compound
  | _ => rfl

/-- Only lists are expanded. -/
theorem step_of_not_list {form : Value} (atom : form.items? = none) :
    expand.step depth e form = pure (some form) := by
  cases form with
  | list => cases atom
  | _ => rfl

end Expander

/-! ### Expansion leaves the workspace alone -/

section Rests

variable {heads : List SpecialForm}

mutual

/-- Building a template leaves a state alone if expanding its unquoted forms does. -/
theorem Template.build_rests {σ : Type} {s : σ} {expand : Value → Run σ Value}
    (rests : ∀ form, form.avoids heads = true → Rests s (fun _ => True) (expand form)) :
    ∀ template : Value, template.avoids heads = true →
      Rests s (fun _ => True) (Template.build expand template)
  | .list items, avoids =>
    Template.buildItems_rests rests items (Value.avoids_list_iff.mp avoids).2
  | .int _, _ | .real _, _ | .bool _, _ | .marker _, _ | .text _, _ | .symbol _, _
  | .closure .., _ | .builtin _, _ | .nil, _ => rests_pure trivial

theorem Template.buildItems_rests {σ : Type} {s : σ} {expand : Value → Run σ Value}
    (rests : ∀ form, form.avoids heads = true → Rests s (fun _ => True) (expand form)) :
    ∀ items : List Value, (∀ v ∈ items, v.avoids heads = true) →
      Rests s (fun _ => True) (Template.buildItems expand items)
  | [], _ => rests_pure trivial
  | head :: rest, avoids => by
    obtain ⟨headAvoids, restAvoids⟩ := List.forall_mem_cons.mp avoids
    unfold Template.buildItems
    split
    · split
      · exact rests _ (restAvoids _ List.mem_cons_self)
      · exact rests_fail _
    · split
      · exact rests_fail _
      · refine (Template.buildItems_rests rests rest restAvoids).bind fun tail _ => ?_
        split
        · next operand splice =>
          rw [Template.spliceOperands?_eq_some_iff.mp splice] at headAvoids
          have avoids := (Value.avoids_list_iff.mp headAvoids).2 operand (by simp)
          exact (rests operand avoids).bind fun _ _ => rests_pure trivial
        · exact rests_fail _
        · exact (Template.build_rests rests head headAvoids).bind fun _ _ => rests_pure trivial

end

namespace Expander

variable {w : Workspace} {expand : Expander}
  (rests : ∀ form : Value, form.avoids heads = true → Rests w (·.isSome = true) (expand form))

include rests

theorem required_rests (form : Value) (avoids : form.avoids heads = true) :
    Rests w (fun _ => True) (expand.required form) :=
  (rests form avoids).bind fun _ _ => rests_pure trivial

theorem all_rests (forms : List Value) (avoids : ∀ v ∈ forms, v.avoids heads = true) :
    Rests w (fun _ => True) (expand.all forms) :=
  (rests_each forms fun v member => rests v (avoids v member)).bind fun _ _ => rests_pure trivial

theorem function_rests (params : Value) (body : List Value)
    (avoids : ∀ v ∈ body, v.avoids heads = true) :
    Rests w (fun _ => True) (expand.function params body) :=
  (rests_ofExcept _).bind fun _ _ => (all_rests rests body avoids).bind fun _ _ =>
    rests_pure trivial

/-- Of the special forms only the definition of a macro changes the workspace or leaves nothing. -/
theorem special_rests (depth : Nat) (e : FrameId) {kind : SpecialForm} (operands : List Value)
    (noDefinition : kind ≠ .defineMacro) (avoids : ∀ v ∈ operands, v.avoids heads = true) :
    Rests w (·.isSome = true) (expand.special depth e kind operands) := by
  have required := required_rests rests
  unfold special
  split
  · exact rests_pure rfl
  · exact (required _ (avoids _ (by simp))).bind fun _ _ =>
      (required _ (avoids _ (by simp))).bind fun _ _ =>
        (required _ (avoids _ (by simp))).bind fun _ _ => rests_pure rfl
  · split
    · exact (required _ (avoids _ (by simp))).bind fun _ _ => rests_pure rfl
    · exact (required _ (avoids _ (by simp))).bind fun _ _ => rests_pure rfl
    · exact rests_fail _
  · refine (function_rests rests _ _ fun v member => ?_).bind fun _ _ => rests_pure rfl
    exact avoids v (List.mem_cons_of_mem _ member)
  · exact (all_rests rests _ avoids).bind fun _ _ => rests_pure rfl
  · exact absurd rfl noDefinition
  · refine (Template.build_rests required _ ?_).bind fun _ _ => rests_pure rfl
    exact avoids _ (by simp)
  all_goals exact rests_fail _

/-- Without macros and definitions of them, expanding a form changes nothing and leaves a form. -/
theorem step_rests (depth : Nat) (e : FrameId) (form : Value)
    (noMacros : w.macros = .empty) (definitions : .defineMacro ∈ heads)
    (avoids : form.avoids heads = true) :
    Rests w (·.isSome = true) (expand.step depth e form) := by
  unfold step
  split
  · exact rests_pure rfl
  · next name operands =>
    obtain ⟨headAvoids, itemsAvoid⟩ := Value.avoids_list_iff.mp avoids
    split
    · next kind special =>
      refine special_rests rests depth e operands ?_ fun v member => ?_
      · rintro rfl
        exact headAvoids _ special definitions
      · exact itemsAvoid v (List.mem_cons_of_mem _ member)
    · have unexpanded : Rests w (· = none) (Run.read fun w => w.macros.get? name) := by
        refine ⟨rfl, fun expander found => ?_⟩
        rw [Run.read, noMacros] at found
        cases found
        rfl
      refine unexpanded.bind fun expander none => ?_
      subst none
      exact (all_rests rests _ itemsAvoid).bind fun _ _ => rests_pure rfl
  · refine (all_rests rests _ ?_).bind fun _ _ => rests_pure rfl
    exact (Value.avoids_list_iff.mp avoids).2
  · exact rests_pure rfl

end Expander

/-- An atom is its own expansion, at any depth. -/
theorem expand_of_not_list {form : Value} (atom : form.items? = none) {depth : Nat} {e : FrameId}
    {w t : Workspace} {f : Option Value} (ran : expand depth e form w = (.value f, t)) :
    f = some form := by
  cases depth with
  | zero => cases ran
  | succ depth =>
    rw [expand, Expander.step_of_not_list _ _ _ atom] at ran
    cases ran
    rfl

/-- Without macros and macro definitions, expansion leaves the workspace alone and something of every
form. -/
theorem expand_rests {w : Workspace} (noMacros : w.macros = .empty)
    (definitions : .defineMacro ∈ heads) (e : FrameId) :
    ∀ (depth : Nat) (form : Value), form.avoids heads = true →
      Rests w (·.isSome = true) (expand depth e form)
  | 0, _, _ => rests_exhaust
  | depth + 1, form, avoids =>
    Expander.step_rests (expand_rests noMacros definitions e depth) depth e form noMacros
      definitions avoids

/-! ### What the parts of a form become -/

namespace Expander

variable {w t : Workspace} {expand : Expander} {β : Type} {b : β}

/-- A form that is needed is present if it does not vanish. -/
theorem required_eq_value {form f : Value} (rests : Rests w (·.isSome = true) (expand form))
    (ran : expand.required form w = (.value f, t)) :
    t = w ∧ expand form w = (.value (some f), w) := by
  obtain ⟨expanded, present, first, given⟩ := rests.of_bind_eq_value ran
  obtain ⟨g, rfl⟩ := Option.isSome_iff_exists.mp present
  obtain ⟨rfl, rfl⟩ := pure_eq_value_iff.mp given
  exact ⟨rfl, first⟩

/-- Where something is left of a form, nothing takes its place. -/
theorem required_bind_eq_value {form : Value} {next : Value → Run Workspace β}
    (rests : Rests w (·.isSome = true) (expand form))
    (ran : (expand.required form >>= next) w = (.value b, t)) :
    ∃ f, expand form w = (.value (some f), w) ∧ next f w = (.value b, t) := by
  obtain ⟨f, u, needed, last⟩ := bind_eq_value_iff.mp ran
  obtain ⟨same, first⟩ := required_eq_value rests needed
  rw [same] at last
  exact ⟨f, first, last⟩

theorem present_of_forall₂ {forms : List Value} {expanded : List (Option Value)}
    (parts : List.Forall₂ (fun form f => expand form w = (.value f, w)) forms expanded)
    (present : ∀ f ∈ expanded, f.isSome = true) :
    List.Forall₂ (fun form f => expand form w = (.value (some f), w)) forms
      (expanded.filterMap id) := by
  induction parts with
  | nil => exact .nil
  | cons head _ ih =>
    obtain ⟨here, others⟩ := List.forall_mem_cons.mp present
    obtain ⟨f, rfl⟩ := Option.isSome_iff_exists.mp here
    exact .cons head (ih others)

/-- Forms are expanded one by one if none of them vanishes. -/
theorem all_bind_eq_value {forms : List Value} {next : List Value → Run Workspace β}
    (rests : ∀ form ∈ forms, Rests w (·.isSome = true) (expand form))
    (ran : (expand.all forms >>= next) w = (.value b, t)) :
    ∃ fs, List.Forall₂ (fun form f => expand form w = (.value (some f), w)) forms fs ∧
      next fs w = (.value b, t) := by
  obtain ⟨fs, u, gathered, last⟩ := bind_eq_value_iff.mp ran
  obtain ⟨expanded, present, first, given⟩ :=
    (rests_each forms rests).of_bind_eq_value gathered
  obtain ⟨rfl, rfl⟩ := pure_eq_value_iff.mp given
  refine ⟨_, ?_, last⟩
  exact present_of_forall₂ (forall₂_of_each_eq_value (fun v member => (rests v member).1) first)
    present

/-- Forms in a row are expanded one by one when none of them is left out. -/
theorem all_eq_value_of_forall₂ {forms fs : List Value}
    (parts : List.Forall₂ (fun form f => expand form w = (.value (some f), w)) forms fs) :
    expand.all forms w = (.value fs, w) := by
  have each : Run.each expand forms w = (.value (fs.map some), w) :=
    each_eq_value_of_forall₂ (List.forall₂_map_right_iff.mpr parts)
  refine bind_eq_value_iff.mpr ⟨_, _, each, ?_⟩
  simp

end Expander

end Rests

end SmallLisp
