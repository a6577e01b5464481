import SmallLisp.Proofs.Alike
import SmallLisp.Proofs.Depth
import SmallLisp.Proofs.MacroFree
import SmallLisp.Session

/-!
Expansion keeps the meaning of a form.

The expander and the evaluator each know the special forms. Where there are no macros and no
templates they agree: a form and its expansion do the same, step by step and at every depth, on
stores whose closures differ only in that bodies are replaced by their expansions. The proof is
`IsExpansion.shapes`: a form and its expansion have the same shape, part by part; everything else is
`Correspondence.step_related`.
-/

namespace SmallLisp

open Run Correspondence

/-- The special forms that expansion removes. -/
def SpecialForm.removed : List SpecialForm :=
  [.defineMacro, .quasiquote, .unquote, .unquoteSplicing]

/-- `f` is what expansion without macros makes of `form`, in which nothing is to be removed. -/
def IsExpansion (form f : Value) : Prop :=
  form.avoids SpecialForm.removed = true ∧
    ∃ depth e w w', w.macros = .empty ∧ expand depth e form w = (.value (some f), w')

/-- The second form is the first or its expansion. -/
def UpToExpansion (form f : Value) : Prop :=
  form = f ∨ IsExpansion form f

namespace UpToExpansion

theorem selfsame : (upTo UpToExpansion).Selfsame fun _ => True where
  values v _ := .same v
  forms _ _ := .inl rfl
  faults f := .refl f
  items _ _ _ _ := trivial
  body _ _ := trivial

end UpToExpansion

/-! ### A form and its expansion have the same shape -/

section Shapes

variable {depth : Nat} {e : FrameId} {w w' : Workspace}

/-- In the workspace `w`, expansion at this depth makes `f` of `form`. -/
def ExpandsTo (depth : Nat) (e : FrameId) (w : Workspace) (form f : Value) : Prop :=
  expand depth e form w = (.value (some f), w)

/-- Forms in a row correspond to what expansion makes of each. -/
theorem upToExpansion_of_forall₂ (noMacros : w.macros = .empty) {forms fs : List Value}
    (avoid : ∀ v ∈ forms, v.avoids SpecialForm.removed = true)
    (expanded : List.Forall₂ (ExpandsTo depth e w) forms fs) :
    List.Forall₂ UpToExpansion forms fs := by
  induction expanded with
  | nil => exact .nil
  | cons first _ ih =>
    obtain ⟨headAvoids, othersAvoid⟩ := List.forall_mem_cons.mp avoid
    exact .cons (.inr ⟨headAvoids, depth, e, w, w, noMacros, first⟩) (ih othersAvoid)

/-- The body of a function, made one form, is expanded to the expanded body made one form. -/
theorem bodyForm_upToExpansion (noMacros : w.macros = .empty) {body fs : List Value}
    (avoid : ∀ v ∈ body, v.avoids SpecialForm.removed = true)
    (expanded : List.Forall₂ (ExpandsTo depth e w) body fs) :
    UpToExpansion (bodyForm body) (bodyForm fs) := by
  match expanded with
  | .nil => exact .inl rfl
  | .cons first .nil =>
    exact .inr ⟨avoid _ List.mem_cons_self, depth, e, w, w, noMacros, first⟩
  | .cons first (.cons second rest) =>
    refine .inr ⟨?_, depth + 1, e, w, w, noMacros, ?_⟩
    · refine Value.avoids_list_iff.mpr ⟨fun kind headed => ?_, ?_⟩
      · rw [specialHead?_name] at headed
        cases headed
        decide
      · exact List.forall_mem_cons.mpr ⟨rfl, avoid⟩
    · have all := Expander.all_eq_value_of_forall₂ (.cons first (.cons second rest))
      exact bind_eq_value_iff.mpr ⟨_, _, all, rfl⟩

/-- A special form keeps its head, and its operands stay operands with which it does the same. -/
theorem special_operands (noMacros : w.macros = .empty) {kind : SpecialForm}
    {operands : List Value} {f : Value} (kept : kind ∉ SpecialForm.removed)
    (avoid : ∀ v ∈ operands, v.avoids SpecialForm.removed = true)
    (ran : (expand depth e).special depth e kind operands w = (.value (some f), w')) :
    ∃ operands', f = .list (.symbol kind.name :: operands') ∧
      (upTo UpToExpansion).Operands kind operands operands' := by
  have rests : ∀ v : Value, v.avoids SpecialForm.removed = true →
      Rests w (·.isSome = true) (expand depth e v) :=
    expand_rests noMacros (by decide) e depth
  have part : ∀ {v g}, v.avoids SpecialForm.removed = true →
      expand depth e v w = (.value (some g), w) → UpToExpansion v g :=
    fun avoids expanded => .inr ⟨avoids, depth, e, w, w, noMacros, expanded⟩
  unfold Expander.special at ran
  split at ran
  · cases ran
    exact ⟨_, rfl, UpToExpansion.selfsame.operands _ fun _ _ => trivial⟩
  · obtain ⟨test, test', ran⟩ :=
      Expander.required_bind_eq_value (rests _ (avoid _ (by simp))) ran
    obtain ⟨success, success', ran⟩ :=
      Expander.required_bind_eq_value (rests _ (avoid _ (by simp))) ran
    obtain ⟨failure, failure', ran⟩ :=
      Expander.required_bind_eq_value (rests _ (avoid _ (by simp))) ran
    cases ran
    exact ⟨_, rfl, .branch (part (avoid _ (by simp)) test') (part (avoid _ (by simp)) success')
      (part (avoid _ (by simp)) failure')⟩
  · next target value =>
    have targets : (upTo UpToExpansion).Targets target target :=
      UpToExpansion.selfsame.targets trivial
    split at ran
    · obtain ⟨g, expanded, ran⟩ :=
        Expander.required_bind_eq_value (rests _ (avoid _ (by simp))) ran
      cases ran
      exact ⟨_, rfl, .bind targets (part (avoid _ (by simp)) expanded)⟩
    · obtain ⟨g, expanded, ran⟩ :=
        Expander.required_bind_eq_value (rests _ (avoid _ (by simp))) ran
      cases ran
      exact ⟨_, rfl, .bind targets (part (avoid _ (by simp)) expanded)⟩
    · cases ran
  · next params first more =>
    have bodyAvoids : ∀ v ∈ first :: more, v.avoids SpecialForm.removed = true :=
      fun v member => avoid v (List.mem_cons_of_mem _ member)
    obtain ⟨function, u, made, ran⟩ := bind_eq_value_iff.mp ran
    cases ran
    obtain ⟨names, u, named, made⟩ := bind_eq_value_iff.mp made
    obtain ⟨valid, rfl⟩ := ofExcept_eq_value_iff.mp named
    obtain ⟨fs, expanded, made⟩ :=
      Expander.all_bind_eq_value (fun v member => rests v (bodyAvoids v member)) made
    cases made
    -- The body becomes a single form here already, the same one that evaluation would make of it.
    have evaluated := parameterNames_phase valid .evaluation
    have nonempty : fs.isEmpty = false := by cases expanded; rfl
    refine ⟨_, rfl, .function evaluated evaluated rfl rfl ?_⟩
    simp only [nonempty]
    show UpToExpansion (bodyForm (first :: more)) (bodyForm fs)
    exact bodyForm_upToExpansion noMacros bodyAvoids expanded
  · obtain ⟨fs, expanded, ran⟩ :=
      Expander.all_bind_eq_value (fun v member => rests v (avoid v member)) ran
    cases ran
    exact ⟨_, rfl, .sequence (upToExpansion_of_forall₂ noMacros avoid expanded)⟩
  · exact absurd (by decide) kept
  · exact absurd (by decide) kept
  all_goals cases ran

/-- A list is expanded as a special form or else element by element. -/
theorem expand_list (noMacros : w.macros = .empty) {items : List Value} {f : Value}
    (avoids : (Value.list items).avoids SpecialForm.removed = true)
    (ran : expand (depth + 1) e (.list items) w = (.value (some f), w')) :
    (∃ kind operands operands', items = .symbol kind.name :: operands ∧
      f = .list (.symbol kind.name :: operands') ∧
      (upTo UpToExpansion).Operands kind operands operands') ∨
    specialHead? items = none ∧
      ∃ fs, f = .list fs ∧ List.Forall₂ (ExpandsTo depth e w) items fs := by
  obtain ⟨headAvoids, itemsAvoid⟩ := Value.avoids_list_iff.mp avoids
  have rests : ∀ v ∈ items, Rests w (·.isSome = true) (expand depth e v) :=
    fun v member => expand_rests noMacros (by decide) e depth v (itemsAvoid v member)
  rw [expand] at ran
  cases special : specialHead? items with
  | some kind =>
    obtain ⟨operands, rfl⟩ := specialHead?_eq_some_iff.mp special
    obtain ⟨_, operandsAvoid⟩ := List.forall_mem_cons.mp itemsAvoid
    rw [Expander.step_special] at ran
    obtain ⟨operands', rfl, same⟩ :=
      special_operands noMacros (headAvoids kind special) operandsAvoid ran
    exact .inl ⟨kind, operands, operands', rfl, rfl, same⟩
  | none =>
    refine .inr ⟨rfl, ?_⟩
    cases items with
    | nil =>
      cases ran
      exact ⟨[], rfl, .nil⟩
    | cons head operands =>
      have ran : ((expand depth e).all (head :: operands) >>=
          fun forms => pure (some (.list forms))) w = (.value (some f), w') := by
        cases named : head.symbolName? with
        | none => rwa [Expander.step_application _ _ _ named] at ran
        | some name =>
          cases head with
          | symbol =>
            have undefined : w.macros.get? name = none := by rw [noMacros]; rfl
            cases named
            rwa [Expander.step_call _ _ _ special undefined] at ran
          | _ => cases named
      obtain ⟨fs, expanded, ran⟩ := Expander.all_bind_eq_value rests ran
      cases ran
      exact ⟨fs, rfl, expanded⟩

/-- A form that is no symbol is not expanded to a symbol. -/
theorem UpToExpansion.symbolName?_eq_none {form f : Value} (upTo : UpToExpansion form f)
    (compound : form.symbolName? = none) : f.symbolName? = none := by
  obtain rfl | ⟨avoids, depth, e, w, w', noMacros, ran⟩ := upTo
  · exact compound
  · cases form with
    | list items =>
      cases depth with
      | zero => cases ran
      | succ depth =>
        obtain ⟨_, _, _, _, rfl, _⟩ | ⟨_, _, rfl, _⟩ := expand_list noMacros avoids ran
        · rfl
        · rfl
    | symbol => cases compound
    | _ =>
      cases expand_of_not_list rfl ran
      rfl

/-- A form and its expansion have the same shape. -/
theorem IsExpansion.shapes {form f : Value} (expansion : IsExpansion form f) :
    (upTo UpToExpansion).Shapes form f := by
  obtain ⟨avoids, depth, e, w, w', noMacros, ran⟩ := expansion
  cases form with
  | list items =>
    cases depth with
    | zero => cases ran
    | succ depth =>
      obtain ⟨kind, operands, operands', rfl, rfl, same⟩ | ⟨ordinary, fs, rfl, expanded⟩ :=
        expand_list noMacros avoids ran
      · exact .list (.special same) ⟨rfl, rfl⟩
      · refine .list ?_ ⟨rfl, rfl⟩
        have related :=
          upToExpansion_of_forall₂ noMacros (Value.avoids_list_iff.mp avoids).2 expanded
        cases related with
        | nil => exact .empty
        | @cons head _ _ _ first others =>
          cases named : head.symbolName? with
          | none =>
            exact .application named (first.symbolName?_eq_none named) first others
          | some name =>
            obtain _ | ⟨headExpanded, _⟩ := expanded
            cases head with
            | symbol =>
              cases expand_of_not_list rfl headExpanded
              exact .call ordinary others
            | _ => cases named
  | _ =>
    cases expand_of_not_list rfl ran
    exact UpToExpansion.selfsame.shapes trivial

end Shapes

/-! ### A form and its expansion do the same -/

/-- A form and its expansion have the same shape, with parts that correspond again. -/
theorem UpToExpansion.lawful : (upTo UpToExpansion).Lawful := by
  refine upTo_lawful (fun _ => .inl rfl) fun p q related => ?_
  obtain rfl | expansion := related
  · exact UpToExpansion.selfsame.shapes trivial
  · exact expansion.shapes

/-- A form and its expansion go side by side at every depth. -/
theorem evaluate_upToExpansion :
    ∀ depth, (upTo UpToExpansion).Evaluators (evaluate depth) (evaluate depth)
  | 0 => fun _ _ _ _ => Comparison.related_exhaust
  | depth + 1 => step_related UpToExpansion.lawful (evaluate_upToExpansion depth)

/-- The two forms, evaluated in the frame `e` of the store `s`, both end with values that differ only
in closure bodies replaced by their expansions, or both fail with faults of one kind and code, or are
both without end. The stores they leave, and in the last case reach at every depth, hold the same
emitted lines, and frames that bind the same names to values which differ only in this way. -/
def SameMeaning (e : FrameId) (s : Store) (form f : Value) : Prop :=
  (∃ v v' t t', Concludes e form s (.value v) t ∧ Concludes e f s (.value v') t' ∧
    Alike UpToExpansion v v' ∧ t.Alike UpToExpansion t') ∨
  (∃ c c' t t', Concludes e form s (.fault c) t ∧ Concludes e f s (.fault c') t' ∧
    c.kind = c'.kind ∧ c.code = c'.code ∧ t.Alike UpToExpansion t') ∨
  (Endless e form s ∧ Endless e f s ∧ ∀ depth,
    (evaluate depth e form s).2.Alike UpToExpansion (evaluate depth e f s).2)

/-- Expansion keeps the meaning of a form in which nothing is to be removed, when no macro is defined:
in every store and every frame. -/
theorem expansion_keeps_meaning {form f : Value} {depth : Nat} {e₀ : FrameId} {s₀ : Store}
    {w : Workspace} (kept : form.avoids SpecialForm.removed = true)
    (expanded : expand depth e₀ form ⟨s₀, .empty⟩ = (.value (some f), w)) (e : FrameId) (s : Store) :
    SameMeaning e s form f := by
  have expansion : UpToExpansion form f := .inr ⟨kept, depth, e₀, _, w, rfl, expanded⟩
  have together := fun depth => (evaluate_upToExpansion depth e form f expansion s s
    (.refl s)).of_strict fun _ => ⟨not_false, not_false⟩
  -- At each depth both end in the same way, and an ending at one depth is the ending at all greater
  -- ones, so what the form does at the first depth that suffices decides the case.
  by_cases endless : Endless e form s
  · have both : ∀ depth, (evaluate depth e f s).1 = .exhausted ∧
        (evaluate depth e form s).2.Alike UpToExpansion (evaluate depth e f s).2 := by
      intro depth
      have exhausted := endless depth
      rcases together depth with ⟨_, _, _, _, left, _⟩ | ⟨_, _, _, _, left, _⟩ |
        ⟨t, t', left, right, stores⟩
      · rw [left] at exhausted
        cases exhausted
      · rw [left] at exhausted
        cases exhausted
      · rw [left, right]
        exact ⟨rfl, stores⟩
    exact .inr (.inr ⟨endless, fun depth => (both depth).1, fun depth => (both depth).2⟩)
  · obtain ⟨enough, ended⟩ := Classical.not_forall.mp endless
    rcases together enough with ⟨_, _, t, t', left, right, values, stores⟩ |
      ⟨_, _, t, t', left, right, like, stores⟩ | ⟨_, _, left, _⟩
    · exact .inl ⟨_, _, t, t', ⟨nofun, enough, left⟩, ⟨nofun, enough, right⟩, values, stores⟩
    · exact .inr (.inl ⟨_, _, t, t', ⟨nofun, enough, left⟩, ⟨nofun, enough, right⟩, like.1, like.2,
        stores⟩)
    · rw [left] at ended
      exact absurd rfl ended

/-- A function with two forms for its body becomes one with a sequence, and means the same. -/
theorem expansion_keeps_meaning_function :
    let bound : Value := .list [.symbol "bind", .symbol "y", .symbol "x"]
    let form : Value := .list [.symbol "fn", .list [.symbol "x"], bound, .symbol "y"]
    let f : Value :=
      .list [.symbol "fn", .list [.symbol "x"], .list [.symbol "do", bound, .symbol "y"]]
    let w : Workspace := Session.start.workspace
    form.avoids SpecialForm.removed = true ∧ expand 3 0 form w = (.value (some f), w) ∧
      SameMeaning 0 w.store form f :=
  ⟨rfl, rfl, @expansion_keeps_meaning _ _ 3 0 Session.start.workspace.store _ rfl rfl 0 _⟩

end SmallLisp
