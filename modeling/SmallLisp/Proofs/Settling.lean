import SmallLisp.Proofs.MacroFree

/-!
Expanded code is a fixed point of expansion.

`Settled` describes code in which expansion finds nothing to do: special forms in their final shape,
with settled parts, and applications of settled parts. Expansion gives settled code back as it is
(`Settled.expand_eq`), and without macros it gives only such code, unless an application has a
template for its head, which may turn into the name of a special form. How deep expansion has to go
is known beforehand: it only ever looks at parts of the form, so more depth than the form is nested
makes no difference (`expand_follows`).
-/

namespace SmallLisp

/-! ### Computations that follow others -/

namespace Run

variable {σ α β : Type} {s t : σ} {P : α → Prop} {Q : β → Prop}

/-- From `t`, the computation `y` ends with a value or a fault and leaves its state alone; from `s`,
the computation `x` does the same, unless it is exhausted. A value they end with satisfies `P`. -/
def Follows (s t : σ) (P : α → Prop) (x y : Run σ α) : Prop :=
  ∃ o, o ≠ .exhausted ∧ (∀ a, o = .value a → P a) ∧ y t = (o, t) ∧
    (x s = (o, s) ∨ x s = (.exhausted, s))

theorem follows_pure {a : α} (holds : P a) : Follows s t P (pure a) (pure a) := by
  refine ⟨.value a, by simp, fun b same => ?_, rfl, .inl rfl⟩
  cases same
  exact holds

theorem follows_fail (cause : Fault) : Follows s t P (fail cause) (fail cause) :=
  ⟨.fault cause, by simp, by simp, rfl, .inl rfl⟩

theorem follows_ofExcept {r : Except Fault α} (holds : ∀ a, r = .ok a → P a) :
    Follows s t P (ofExcept r) (ofExcept r) := by
  cases r with
  | ok a => exact follows_pure (holds a rfl)
  | error cause => exact follows_fail cause

/-- If the first parts follow each other, the rest finds the same value on both sides. -/
theorem Follows.bind {x y : Run σ α} {f g : α → Run σ β} (first : Follows s t P x y)
    (next : ∀ a, P a → Follows s t Q (f a) (g a)) : Follows s t Q (x >>= f) (y >>= g) := by
  obtain ⟨o, ended, holds, right, left⟩ := first
  cases o with
  | value a =>
    obtain ⟨o', ended', holds', right', left'⟩ := next a (holds a rfl)
    refine ⟨o', ended', holds', ?_, ?_⟩
    · rw [bind_apply, right]
      exact right'
    · rcases left with left | left
      · rw [bind_apply, left]
        exact left'
      · right
        rw [bind_apply, left]
  | fault cause =>
    refine ⟨.fault cause, by simp, by simp, by rw [bind_apply, right], ?_⟩
    rcases left with left | left
    · left
      rw [bind_apply, left]
    · right
      rw [bind_apply, left]
  | exhausted => exact absurd rfl ended

theorem follows_each {R : α → β → Prop} {f g : α → Run σ β} :
    ∀ {as : List α}, (∀ a ∈ as, Follows s t (R a) (f a) (g a)) →
      Follows s t (List.Forall₂ R as) (each f as) (each g as)
  | [], _ => follows_pure .nil
  | a :: as, follows => by
    obtain ⟨here, others⟩ := List.forall_mem_cons.mp follows
    refine here.bind fun b first => (follows_each others).bind fun bs rest => ?_
    exact follows_pure (.cons first rest)

end Run

open Run

/-! ### Forms -/

namespace Value

mutual

/-- How many lists of a form stand inside one another. -/
def nesting : Value → Nat
  | .list items => nestingOfItems items + 1
  | _ => 0

def nestingOfItems : List Value → Nat
  | [] => 0
  | v :: vs => max (nesting v) (nestingOfItems vs)

end

/-- An element is less deep than its list, on which the induction over forms rests. -/
theorem nesting_lt_of_mem {items : List Value} {v : Value} (member : v ∈ items) :
    v.nesting < (list items).nesting := by
  rw [nesting, Nat.lt_succ_iff]
  induction items with
  | nil => cases member
  | cons w items ih =>
    rw [nestingOfItems]
    rcases List.mem_cons.mp member with rfl | member
    · exact Nat.le_max_left _ _
    · exact Nat.le_trans (ih member) (Nat.le_max_right _ _)

def isTemplate (v : Value) : Bool :=
  v.items?.bind specialHead? = some .quasiquote

mutual

/-- No list in a form has a template for its first element. -/
def plainHeads : Value → Bool
  | .list items => items.head?.all (fun head => !head.isTemplate) && allPlainHeads items
  | _ => true

def allPlainHeads : List Value → Bool
  | [] => true
  | v :: vs => plainHeads v && allPlainHeads vs

end

/-- A list has plain heads if its first element is no template and all its elements have. -/
theorem plainHeads_list_iff {items : List Value} :
    (list items).plainHeads = true ↔
      (∀ head ∈ items.head?, head.isTemplate = false) ∧ ∀ v ∈ items, v.plainHeads = true := by
  have all : ∀ vs : List Value, allPlainHeads vs = true ↔ ∀ v ∈ vs, v.plainHeads = true := by
    intro vs
    induction vs with
    | nil => simp [allPlainHeads]
    | cons v vs ih => simp [allPlainHeads, ih]
  rw [plainHeads, Bool.and_eq_true, all]
  cases items <;> simp

/-- No macro is defined in the form, and no template stands at the head of a list. -/
structure Steady (form : Value) : Prop where
  definitions : form.avoids [.defineMacro] = true
  heads : form.plainHeads = true

/-- The elements of a steady list are steady. -/
theorem Steady.item {items : List Value} (steady : (list items).Steady) {v : Value}
    (member : v ∈ items) : v.Steady :=
  ⟨(avoids_list_iff.mp steady.definitions).2 v member,
    (plainHeads_list_iff.mp steady.heads).2 v member⟩

end Value

/-! ### Settled code -/

/-- Code in which expansion finds nothing to do when there are no macros. -/
inductive Settled : Value → Prop
  | atom {v : Value} : v.items? = none → Settled v
  | application {items : List Value} : specialHead? items = none → (∀ v ∈ items, Settled v) →
      Settled (.list items)
  | quote (datum : Value) : Settled (Expander.form .quote [datum])
  | branch {test success failure : Value} : Settled test → Settled success → Settled failure →
      Settled (Expander.form .branch [test, success, failure])
  | bindSymbol (name : String) {value : Value} : Settled value →
      Settled (Expander.form .bind [.symbol name, value])
  | bindList (items : List Value) {value : Value} : Settled value →
      Settled (Expander.form .bind [.list items, value])
  | function {params body : Value} {names : List String} :
      parameterNames .expansion params = .ok names → Settled body →
      Settled (Expander.form .function [params, body])
  | sequence {forms : List Value} : (∀ f ∈ forms, Settled f) →
      Settled (Expander.form .sequence forms)

namespace Settled

/-- The calls that build a template are settled if their operands are. -/
theorem call {b : Builtin} (ordinary : SpecialForm.ofName? b.name = none) {left right : Value}
    (first : Settled left) (second : Settled right) : Settled (Template.call b left right) := by
  refine .application ordinary ?_
  simpa using ⟨.atom rfl, first, second⟩

theorem bodyForm {forms : List Value} (settled : ∀ f ∈ forms, Settled f) :
    Settled (bodyForm forms) := by
  unfold SmallLisp.bodyForm
  split
  · exact settled _ List.mem_cons_self
  · exact .sequence settled

end Settled

namespace Expander

variable {expand : Expander} {w : Workspace}

theorem required_of_eq {form f : Value} (expanded : expand form w = (.value (some f), w)) :
    expand.required form w = (.value f, w) :=
  bind_eq_value_iff.mpr ⟨_, _, expanded, rfl⟩

theorem all_of_forall_eq {forms : List Value}
    (expanded : ∀ v ∈ forms, expand v w = (.value (some v), w)) :
    expand.all forms w = (.value forms, w) :=
  all_eq_value_of_forall₂ (List.forall₂_same.mpr expanded)

/-- A list that is no special form and no call of a macro is put together from its elements. -/
theorem step_unheaded (expand : Expander) (depth : Nat) (e : FrameId) {items : List Value}
    (ordinary : specialHead? items = none) (noMacros : w.macros = .empty) :
    expand.step depth e (.list items) w =
      (expand.all items >>= fun forms => pure (some (.list forms))) w := by
  cases items with
  | nil => rfl
  | cons head operands =>
    cases named : head.symbolName? with
    | none => rw [step_application _ _ _ named]
    | some name =>
      cases head with
      | symbol =>
        refine step_call _ _ _ ordinary ?_ _
        rw [noMacros]
        rfl
      | _ => cases named

end Expander

open Expander in
/-- A step of expansion gives settled code back, if it gives back the parts. -/
theorem Settled.step_eq {f : Value} (settled : Settled f) {expand : Expander} {w : Workspace}
    (noMacros : w.macros = .empty) (kept : ∀ v : Value, v.nesting < f.nesting → Settled v →
      expand v w = (.value (some v), w)) (depth : Nat) (e : FrameId) :
    expand.step depth e f w = (.value (some f), w) := by
  have required : ∀ {kind operands v}, f = form kind operands → v ∈ operands → Settled v →
      expand.required v w = (.value v, w) := by
    rintro kind operands v rfl member settled
    have less := Value.nesting_lt_of_mem (List.mem_cons_of_mem (.symbol kind.name) member)
    exact required_of_eq (kept v less settled)
  cases settled with
  | atom single =>
    rw [step_of_not_list _ _ _ single]
    rfl
  | application ordinary parts =>
    rw [step_unheaded _ _ _ ordinary noMacros]
    refine bind_eq_value_iff.mpr ⟨_, _, all_of_forall_eq fun v member => ?_, rfl⟩
    exact kept v (Value.nesting_lt_of_mem member) (parts v member)
  | quote datum =>
    rw [form, step_special]
    rfl
  | branch first second third =>
    have test := required rfl (by simp) first
    have success := required rfl (by simp) second
    have failure := required rfl (by simp) third
    rw [form, step_special, special]
    exact bind_eq_value_iff.mpr ⟨_, _, test, bind_eq_value_iff.mpr ⟨_, _, success,
      bind_eq_value_iff.mpr ⟨_, _, failure, rfl⟩⟩⟩
  | bindSymbol name value =>
    rw [form, step_special]
    exact bind_eq_value_iff.mpr ⟨_, _, required rfl (by simp) value, rfl⟩
  | bindList items value =>
    rw [form, step_special]
    exact bind_eq_value_iff.mpr ⟨_, _, required rfl (by simp) value, rfl⟩
  | @function params body names named inner =>
    have less : body.nesting < (form .function [params, body]).nesting :=
      Value.nesting_lt_of_mem (by simp)
    have expanded : expand.all [body] w = (.value [body], w) :=
      all_of_forall_eq (List.forall_mem_singleton.mpr (kept body less inner))
    rw [form, step_special, special]
    refine bind_eq_value_iff.mpr ⟨form .function [params, body], w, ?_, rfl⟩
    refine bind_eq_value_iff.mpr ⟨names, w, ofExcept_eq_value_iff.mpr ⟨named, rfl⟩, ?_⟩
    exact bind_eq_value_iff.mpr ⟨_, _, expanded, rfl⟩
  | @sequence forms parts =>
    rw [form, step_special]
    refine bind_eq_value_iff.mpr ⟨_, _, all_of_forall_eq fun v member => ?_, rfl⟩
    exact kept v (Value.nesting_lt_of_mem (List.mem_cons_of_mem _ member)) (parts v member)

/-- Expansion gives settled code back as it is, at every depth greater than its nesting. -/
theorem Settled.expand_eq {w : Workspace} (noMacros : w.macros = .empty) (e : FrameId) :
    ∀ {depth : Nat} {f : Value}, Settled f → f.nesting < depth →
      expand depth e f w = (.value (some f), w)
  | depth + 1, _, settled, enough => settled.step_eq noMacros
    (fun _ less inner => expand_eq noMacros e inner
      (Nat.lt_of_lt_of_le less (Nat.lt_succ_iff.mp enough))) depth e

/-! ### What expansion leaves -/

/-- What is left of a form is settled, and has the name of the form, unless that is a template. -/
def Settles (form f : Value) : Prop :=
  Settled f ∧ (form.isTemplate = false → f.symbolName? = form.symbolName?)

/-- Something is left of the form, and it is settled. -/
def Remains (form : Value) (left : Option Value) : Prop :=
  ∃ f, left = some f ∧ Settles form f

/-- Whether a list is a special form depends on the name of its first element only. -/
theorem specialHead?_eq_of_symbolName?_eq {f g : Value} (same : f.symbolName? = g.symbolName?)
    (fs gs : List Value) : specialHead? (f :: fs) = specialHead? (g :: gs) := by
  cases f with
  | symbol name =>
    cases g with
    | symbol name' =>
      cases same
      rfl
    | _ => cases same
  | _ =>
    cases g with
    | symbol name' => cases same
    | _ => rfl

section Template

variable {w w' : Workspace} {expand expand' : Value → Run Workspace Value} {n : Nat}

mutual

/-- What builds a template is settled, and built in the same way in both workspaces. -/
theorem Template.build_follows
    (follows : ∀ v : Value, v.nesting < n → v.Steady →
      Follows w w' Settled (expand v) (expand' v)) :
    ∀ template : Value, template.nesting < n → template.Steady →
      Follows w w' Settled (Template.build expand template) (Template.build expand' template)
  | .list items, less, steady =>
    Template.buildItems_follows follows items fun _ member =>
      ⟨Nat.lt_trans (Value.nesting_lt_of_mem member) less, steady.item member⟩
  | .int _, _, _ | .real _, _, _ | .bool _, _, _ | .marker _, _, _ | .text _, _, _
  | .symbol _, _, _ | .closure .., _, _ | .builtin _, _, _ | .nil, _, _ => follows_pure (.quote _)

theorem Template.buildItems_follows
    (follows : ∀ v : Value, v.nesting < n → v.Steady →
      Follows w w' Settled (expand v) (expand' v)) :
    ∀ items : List Value, (∀ v ∈ items, v.nesting < n ∧ v.Steady) →
      Follows w w' Settled (Template.buildItems expand items) (Template.buildItems expand' items)
  | [], _ => follows_pure (.quote _)
  | head :: rest, parts => by
    obtain ⟨⟨headLess, headSteady⟩, restParts⟩ := List.forall_mem_cons.mp parts
    unfold Template.buildItems
    split
    · split
      · next operand =>
        obtain ⟨less, steady⟩ := restParts operand List.mem_cons_self
        exact follows operand less steady
      · exact follows_fail _
    · split
      · exact follows_fail _
      · refine (Template.buildItems_follows follows rest restParts).bind fun tail built => ?_
        split
        · next operand splice =>
          rw [Template.spliceOperands?_eq_some_iff.mp splice] at headLess headSteady
          have member : operand ∈ [.symbol SpecialForm.unquoteSplicing.name, operand] := by simp
          have less := Nat.lt_trans (Value.nesting_lt_of_mem member) headLess
          exact (follows operand less (headSteady.item member)).bind fun spliced settled =>
            follows_pure (.call rfl settled built)
        · exact follows_fail _
        · exact (Template.build_follows follows head headLess headSteady).bind
            fun element settled => follows_pure (.call rfl settled built)

end

end Template

namespace Expander

variable {w w' : Workspace} {expand expand' : Expander}

theorem required_follows {form : Value}
    (follows : Follows w w' (Remains form) (expand form) (expand' form)) :
    Follows w w' Settled (expand.required form) (expand'.required form) := by
  refine follows.bind fun left remains => ?_
  obtain ⟨f, rfl, settled, -⟩ := remains
  exact follows_pure settled

theorem all_follows {forms : List Value}
    (follows : ∀ v ∈ forms, Follows w w' (Remains v) (expand v) (expand' v)) :
    Follows w w' (List.Forall₂ Settles forms) (expand.all forms) (expand'.all forms) := by
  refine (follows_each follows).bind fun lefts remains => follows_pure ?_
  clear follows
  induction remains with
  | nil => exact .nil
  | cons first _ ih =>
    obtain ⟨f, rfl, settles⟩ := first
    exact .cons settles ih

theorem settled_of_forall₂ {forms fs : List Value} (settles : List.Forall₂ Settles forms fs) :
    ∀ f ∈ fs, Settled f := by
  induction settles with
  | nil => exact List.forall_mem_nil _
  | cons first _ ih => exact List.forall_mem_cons.mpr ⟨first.1, ih⟩

/-- A list put together from what is left of its elements has no special head, if the old one had
none and no template stood there. -/
theorem specialHead?_of_forall₂ {items fs : List Value} (settles : List.Forall₂ Settles items fs)
    (plain : ∀ head ∈ items.head?, head.isTemplate = false) :
    specialHead? fs = specialHead? items := by
  cases settles with
  | nil => rfl
  | cons first _ => exact specialHead?_eq_of_symbolName?_eq (first.2 (plain _ rfl)) _ _

/-- A list stays a list. -/
theorem remains_list {items fs : List Value} (settled : Settled (.list fs)) :
    Remains (.list items) (some (.list fs)) :=
  ⟨_, rfl, settled, fun _ => rfl⟩

/-- A function is left with a settled body, and never as a symbol. -/
theorem function_follows {params : Value} {body : List Value}
    (follows : ∀ v ∈ body, Follows w w' (Remains v) (expand v) (expand' v)) :
    Follows w w' (fun f => Settled f ∧ f.symbolName? = none) (expand.function params body)
      (expand'.function params body) := by
  have named : Follows w w' (fun names => parameterNames .expansion params = .ok names)
      (.ofExcept (parameterNames .expansion params))
      (.ofExcept (parameterNames .expansion params)) := follows_ofExcept fun _ same => same
  refine named.bind fun names found => (all_follows follows).bind fun forms settles => ?_
  have settled : Settled (if forms.isEmpty then .nil else bodyForm forms) := by
    split
    · exact .atom rfl
    · exact .bodyForm (settled_of_forall₂ settles)
  exact follows_pure ⟨.function found settled, rfl⟩

section Step

variable {items : List Value} (steady : (Value.list items).Steady)
  (follows : ∀ v ∈ items, Follows w w' (Remains v) (expand v) (expand' v))
  (templates : ∀ template ∈ items, Follows w w' Settled (Template.build expand.required template)
    (Template.build expand'.required template))

include steady follows templates

/-- Special forms are put together again as they were, of settled parts. -/
theorem special_follows (depth depth' : Nat) (e e' : FrameId) {kind : SpecialForm}
    {operands : List Value} (headed : items = .symbol kind.name :: operands) :
    Follows w w' (Remains (.list items)) (expand.special depth e kind operands)
      (expand'.special depth' e' kind operands) := by
  subst headed
  have parts : ∀ v ∈ operands, Follows w w' (Remains v) (expand v) (expand' v) :=
    fun v member => follows v (List.mem_cons_of_mem _ member)
  have required : ∀ v ∈ operands, Follows w w' Settled (expand.required v) (expand'.required v) :=
    fun v member => required_follows (parts v member)
  unfold special
  split
  · exact follows_pure (remains_list (.quote _))
  · refine (required _ (by simp)).bind fun test first => ?_
    refine (required _ (by simp)).bind fun success second => ?_
    refine (required _ (by simp)).bind fun failure third => ?_
    exact follows_pure (remains_list (.branch first second third))
  · split
    · exact (required _ (by simp)).bind fun value settled =>
        follows_pure (remains_list (.bindSymbol _ settled))
    · exact (required _ (by simp)).bind fun value settled =>
        follows_pure (remains_list (.bindList _ settled))
    · exact follows_fail _
  · next params first more =>
    refine (function_follows fun v member => parts v (List.mem_cons_of_mem _ member)).bind ?_
    rintro f ⟨settled, unnamed⟩
    exact follows_pure ⟨f, rfl, settled, fun _ => unnamed⟩
  · exact (all_follows parts).bind fun forms settles =>
      follows_pure (remains_list (.sequence (settled_of_forall₂ settles)))
  · exact absurd List.mem_cons_self ((Value.avoids_list_iff.mp steady.definitions).1 _ rfl)
  · next template =>
    refine (templates template (by simp)).bind fun built settled => follows_pure ?_
    exact ⟨built, rfl, settled, fun plain => by simp [Value.isTemplate, Value.items?] at plain⟩
  all_goals exact follows_fail _

/-- Without macros, expanding a list leaves a settled form with the name of the list. -/
theorem list_follows (noMacros : w.macros = .empty) (noMacros' : w'.macros = .empty)
    (depth depth' : Nat) (e e' : FrameId) :
    Follows w w' (Remains (.list items)) (expand.step depth e (.list items))
      (expand'.step depth' e' (.list items)) := by
  cases headed : specialHead? items with
  | some kind =>
    obtain ⟨operands, rfl⟩ := specialHead?_eq_some_iff.mp headed
    rw [step_special, step_special]
    exact special_follows steady follows templates depth depth' e e' rfl
  | none =>
    have rebuilt : Follows w w' (Remains (.list items))
        (expand.all items >>= fun forms => pure (some (.list forms)))
        (expand'.all items >>= fun forms => pure (some (.list forms))) := by
      refine (all_follows follows).bind fun fs settles => follows_pure (remains_list ?_)
      refine .application ?_ (settled_of_forall₂ settles)
      rw [specialHead?_of_forall₂ settles (Value.plainHeads_list_iff.mp steady.heads).1, headed]
    unfold Follows
    rw [step_unheaded _ _ _ headed noMacros, step_unheaded _ _ _ headed noMacros']
    exact rebuilt

end Step

end Expander

/-- Without macros, expansion of a steady form leaves the workspace alone, and what it comes to is
the same from every frame, in every store, and at every depth greater than the nesting of the
form. -/
theorem expand_follows {w w' : Workspace} (noMacros : w.macros = .empty)
    (noMacros' : w'.macros = .empty) (e e' : FrameId) {form : Value} (steady : form.Steady)
    {depth' : Nat} (enough : form.nesting < depth') (depth : Nat) :
    Follows w w' (Remains form) (expand depth e form) (expand depth' e' form) := by
  induction depth' generalizing form depth with
  | zero => exact absurd enough (Nat.not_lt_zero _)
  | succ depth' ih =>
    -- The step is followed by one whose parts are expanded at any depth, also at none.
    have step : ∀ depth, Follows w w' (Remains form) ((expand depth e).step depth e form)
        (expand (depth' + 1) e' form) := by
      intro depth
      cases form with
      | list items =>
        have inner : ∀ v : Value, v.nesting < (Value.list items).nesting → v.Steady →
            Follows w w' (Remains v) (expand depth e v) (expand depth' e' v) := fun v less steady =>
          ih steady (Nat.lt_of_lt_of_le less (Nat.lt_succ_iff.mp enough)) depth
        refine Expander.list_follows steady (fun v member => ?_) (fun template member => ?_)
          noMacros noMacros' depth depth' e e'
        · exact inner v (Value.nesting_lt_of_mem member) (steady.item member)
        · have required : ∀ v : Value, v.nesting < (Value.list items).nesting → v.Steady →
              Follows w w' Settled ((expand depth e).required v) ((expand depth' e').required v) :=
            fun v less steady => Expander.required_follows (inner v less steady)
          exact Template.build_follows required template (Value.nesting_lt_of_mem member)
            (steady.item member)
      | _ => exact follows_pure ⟨_, rfl, .atom rfl, fun _ => rfl⟩
    cases depth with
    | zero =>
      obtain ⟨o, ended, remains, right, -⟩ := step 0
      exact ⟨o, ended, remains, right, .inr rfl⟩
    | succ depth => exact step depth

/-- What expansion without macros leaves is a fixed point of it. A form in which no macro is defined
and no template stands at the head of a list comes to one and the same end, not exhausted, from
every frame, in every store and at every depth greater than its nesting; at smaller depths expansion
comes to the same end or is exhausted. The workspace is left as it was, in all cases. If the end is
a value, then something is left of the form, and it expands to itself. -/
theorem expansion_is_fixed_point {form : Value} (definitions : form.avoids [.defineMacro] = true)
    (heads : form.plainHeads = true) :
    ∃ outcome, outcome ≠ .exhausted ∧
      (∀ e s depth, form.nesting < depth →
        expand depth e form ⟨s, .empty⟩ = (outcome, ⟨s, .empty⟩)) ∧
      (∀ e s depth, expand depth e form ⟨s, .empty⟩ = (outcome, ⟨s, .empty⟩) ∨
        expand depth e form ⟨s, .empty⟩ = (.exhausted, ⟨s, .empty⟩)) ∧
      ∀ left, outcome = .value left → ∃ f, left = some f ∧ ∀ e s depth, f.nesting < depth →
        expand depth e f ⟨s, .empty⟩ = (.value (some f), ⟨s, .empty⟩) := by
  have follows : ∀ e e' s s' depth depth', form.nesting < depth' →
      Follows ⟨s, .empty⟩ ⟨s', .empty⟩ (Remains form) (expand depth e form)
        (expand depth' e' form) :=
    fun e e' _ _ depth _ enough => expand_follows rfl rfl e e' ⟨definitions, heads⟩ enough depth
  obtain ⟨outcome, ended, remains, reference, -⟩ :=
    follows 0 0 .empty .empty 0 (form.nesting + 1) (Nat.lt_succ_self _)
  refine ⟨outcome, ended, fun e s depth enough => ?_, fun e s depth => ?_, fun left given => ?_⟩
  · obtain ⟨o, -, -, right, left⟩ := follows 0 e .empty s (form.nesting + 1) depth enough
    rcases left with left | left
    · cases reference.symm.trans left
      exact right
    · cases reference.symm.trans left
      exact absurd rfl ended
  · obtain ⟨o, -, -, right, left⟩ :=
      follows e 0 s .empty depth (form.nesting + 1) (Nat.lt_succ_self _)
    cases reference.symm.trans right
    exact left
  · obtain ⟨f, rfl, settled, -⟩ := remains left given
    exact ⟨f, rfl, fun e s depth enough => Settled.expand_eq rfl e settled enough⟩

/-- A function whose body is a template with a splice and a second form is merged and built once;
the result is left alone from then on. -/
theorem expansion_is_fixed_point_template :
    let template : Value := .list [.symbol "quasiquote", .list [.symbol "a",
      .list [.symbol "unquote", .symbol "x"], .list [.symbol "unquote-splicing", .symbol "xs"]]]
    let form : Value := .list [.symbol "fn", .list [.symbol "x"], template, .symbol "y"]
    let call (name : String) (left right : Value) : Value := .list [.symbol name, left, right]
    let built : Value := call "join" (Template.quoted (.symbol "a"))
      (call "join" (.symbol "x") (call "++" (.symbol "xs") (Template.quoted (.list []))))
    let f : Value := .list [.symbol "fn", .list [.symbol "x"], call "do" built (.symbol "y")]
    let w : Workspace := ⟨.empty, .empty⟩
    form.avoids [.defineMacro] = true ∧ form.plainHeads = true ∧
      expand 9 0 form w = (.value (some f), w) ∧ expand 9 0 f w = (.value (some f), w) := by
  intro template form call built f w
  have expanded : expand 9 0 form w = (.value (some f), w) := rfl
  obtain ⟨outcome, -, ends, -, fixed⟩ := @expansion_is_fixed_point form rfl rfl
  cases (ends 0 .empty 9 (by decide)).symm.trans expanded
  obtain ⟨g, same, again⟩ := fixed (some f) rfl
  cases same
  exact ⟨rfl, rfl, expanded, again 0 .empty 9 (by decide)⟩

end SmallLisp
