import SmallLisp.Session

/-!
Lines that were emitted earlier.

Programs emit lines and never look at them again. So the lines that a store holds from earlier are
still there afterwards, before the new ones, and make no other difference: `Run.Overlooks` says this
of a computation for any change of the state, and `Session.line_logged` of the lines of a session.
-/

namespace SmallLisp

/-! ### Computations that overlook a change of the state -/

namespace Run

variable {σ α β : Type}

/-- Whether or not the state is changed by `f` first, the computation ends in the same way, and the
change is there afterwards. -/
def Overlooks (f : σ → σ) (x : Run σ α) : Prop :=
  ∀ s, x (f s) = ((x s).1, f (x s).2)

section Overlooks

variable {f : σ → σ}

theorem overlooks_pure (a : α) : Overlooks f (pure a : Run σ α) :=
  fun _ => rfl

theorem overlooks_fail (cause : Fault) : Overlooks f (fail cause : Run σ α) :=
  fun _ => rfl

theorem overlooks_exhaust : Overlooks f (exhaust : Run σ α) :=
  fun _ => rfl

theorem overlooks_ofExcept (r : Except Fault α) : Overlooks f (ofExcept r : Run σ α) := by
  cases r with
  | ok a => exact overlooks_pure a
  | error cause => exact overlooks_fail cause

/-- A computation overlooks a change that is not in what it reads. -/
theorem overlooks_read {g : σ → α} (same : ∀ s, g (f s) = g s) : Overlooks f (read g) := by
  intro s
  rw [read, same]
  rfl

/-- A computation overlooks a change that commutes with its own. -/
theorem overlooks_update {g : σ → σ} (commute : ∀ s, g (f s) = f (g s)) :
    Overlooks f (update g) := by
  intro s
  rw [update, commute]
  rfl

/-- If both parts overlook the change, so does the whole. -/
theorem Overlooks.bind {x : Run σ α} {g : α → Run σ β} (first : Overlooks f x)
    (next : ∀ a, Overlooks f (g a)) : Overlooks f (x >>= g) := by
  intro s
  rw [bind_apply, bind_apply, first s]
  rcases x s with ⟨a | cause | _, t⟩
  · exact next a t
  · rfl
  · rfl

theorem overlooks_each {g : α → Run σ β} (overlooks : ∀ a, Overlooks f (g a)) :
    ∀ as, Overlooks f (each g as)
  | [] => overlooks_pure []
  | a :: as =>
    (overlooks a).bind fun _ => (overlooks_each overlooks as).bind fun _ => overlooks_pure _

end Overlooks

end Run

/-! ### Stores with earlier lines -/

namespace Store

variable (earlier : Array String) (s : Store)

/-- The store with lines that were emitted earlier. -/
def logged : Store :=
  { s with emitted := earlier ++ s.emitted }

theorem ancestryUpTo_logged (count : Nat) (e : FrameId) :
    (s.logged earlier).ancestryUpTo count e = s.ancestryUpTo count e := by
  refine ancestryUpTo_congr (fun i => ?_) count e
  rfl

/-- The value of a name does not depend on what was emitted. -/
theorem lookup?_logged (e : FrameId) (name : String) :
    (s.logged earlier).lookup? e name = s.lookup? e name := by
  unfold lookup? ancestry
  rw [ancestryUpTo_logged]
  rfl

theorem isBound_logged (e : FrameId) (name : String) :
    (s.logged earlier).isBound e name = s.isBound e name := by
  rw [isBound, lookup?_logged, isBound]

theorem namesBinding_logged (e : FrameId) :
    (s.logged earlier).namesBinding e = s.namesBinding e := by
  funext v
  unfold namesBinding
  split <;> first | exact isBound_logged earlier s e _ | rfl

theorem rootLine_logged (e : FrameId) : (s.logged earlier).rootLine e = s.rootLine e := by
  unfold rootLine rootOf ancestry
  rw [ancestryUpTo_logged]
  rfl

/-- A new line comes behind those emitted earlier. -/
theorem emit_logged (line : String) :
    (s.logged earlier).emit line = (s.emit line).logged earlier := by
  simp [emit, logged]

end Store

open Run

/-! ### Evaluation -/

section Evaluation

variable {earlier : Array String}

theorem find_overlooks (e : FrameId) (name : String) :
    Overlooks (Store.logged earlier) (find e name) := by
  intro s
  unfold find
  rw [Store.lookup?_logged]
  split <;> rfl

theorem requireUnbound_overlooks (e : FrameId) (name : String) :
    Overlooks (Store.logged earlier) (requireUnbound e name) := by
  intro s
  unfold requireUnbound
  rw [Store.isBound_logged]
  split <;> rfl

theorem bindName_overlooks (e : FrameId) (name : String) (v : Value) :
    Overlooks (Store.logged earlier) (bindName e name v) := by
  intro s
  have same : (s.logged earlier).binds e name = s.binds e name := rfl
  unfold bindName
  rw [same]
  split <;> rfl

theorem bindParameters_overlooks (e : FrameId) :
    ∀ names operands, Overlooks (Store.logged earlier) (bindParameters e names operands)
  | [], _ => overlooks_pure ()
  | name :: names, operands =>
    (bindName_overlooks e name _).bind fun _ => bindParameters_overlooks e names operands.tail

/-- No built-in procedure reads what was emitted. -/
theorem call_overlooks (b : Builtin) (operands : List Value) (e : FrameId) :
    Overlooks (Store.logged earlier) (b.call operands e) := by
  cases b <;> unfold Builtin.call
  case isBound =>
    refine overlooks_read fun s => ?_
    rw [Store.namesBinding_logged]
  case newline =>
    refine (overlooks_update fun s => ?_).bind fun _ => overlooks_pure _
    exact Store.emit_logged earlier s ""
  case globals =>
    refine (overlooks_update fun s => ?_).bind fun _ => overlooks_pure _
    rw [Store.rootLine_logged, Store.emit_logged]
  all_goals first | exact overlooks_ofExcept _ | exact overlooks_pure _

namespace Evaluator

variable {eval : Evaluator} (overlooks : ∀ e form, Overlooks (Store.logged earlier) (eval e form))

include overlooks

theorem apply_overlooks (f : Value) (operands : List Value) (e : FrameId) :
    Overlooks (Store.logged earlier) (eval.apply f operands e) := by
  have fresh : ∀ scope, Overlooks (Store.logged earlier) (newFrame scope) := fun _ _ => rfl
  unfold apply
  split
  · exact call_overlooks _ operands e
  · exact (fresh _).bind fun frame =>
      (bindParameters_overlooks frame _ operands).bind fun _ => overlooks frame _
  · exact overlooks_fail _

theorem sequence_overlooks (e : FrameId) :
    ∀ forms, Overlooks (Store.logged earlier) (eval.sequence e forms)
  | [] => overlooks_pure Value.nil
  | [form] => overlooks e form
  | form :: next :: forms => (overlooks e form).bind fun _ => sequence_overlooks e (next :: forms)

/-- A binding sees the same name and the same frame, whatever was emitted. -/
theorem bind_overlooks (e : FrameId) (target form : Value) :
    Overlooks (Store.logged earlier) (eval.bind e target form) := by
  have resolved : Overlooks (Store.logged earlier) (eval.bindingTarget e target) := by
    unfold bindingTarget
    split
    · exact overlooks e _
    · exact overlooks_pure _
  refine (resolved.bind fun _ => overlooks_ofExcept _).bind fun name => ?_
  refine (requireUnbound_overlooks e name).bind fun _ => (overlooks e form).bind fun v => ?_
  exact (bindName_overlooks e name v).bind fun _ => overlooks_pure v

/-- No special form sees more of the store than its parts do. -/
theorem special_overlooks (kind : SpecialForm) (e : FrameId) (operands : List Value) :
    Overlooks (Store.logged earlier) (eval.special kind e operands) := by
  have closure : ∀ names body, Overlooks (Store.logged earlier) (newClosure names body e) :=
    fun _ _ _ => rfl
  unfold special
  split
  · exact overlooks_pure _
  · exact bind_overlooks overlooks e _ _
  · refine (overlooks e _).bind fun test => ?_
    split
    · exact overlooks e _
    · exact overlooks e _
  · refine (overlooks_ofExcept _).bind fun names => ?_
    split
    · exact overlooks_fail _
    · exact closure names _
  · exact sequence_overlooks overlooks e _
  all_goals exact overlooks_fail _

theorem list_overlooks (e : FrameId) (items : List Value) :
    Overlooks (Store.logged earlier) (eval.list e items) := by
  have applies : ∀ f operands, Overlooks (Store.logged earlier) (do
      let args ← Run.each (eval e) operands
      eval.apply f args e) := fun f operands =>
    (overlooks_each (overlooks e) operands).bind fun args => apply_overlooks overlooks f args e
  unfold list
  split
  · exact overlooks_fail _
  · split
    · exact special_overlooks overlooks _ e _
    · exact (find_overlooks e _).bind fun f => applies f _
  · refine (overlooks e _).bind fun f => ?_
    split
    · exact applies f _
    · exact overlooks_fail _

theorem step_overlooks (e : FrameId) (form : Value) :
    Overlooks (Store.logged earlier) (eval.step e form) := by
  unfold step
  split
  · exact find_overlooks e _
  · exact (find_overlooks e _).bind fun f => apply_overlooks overlooks f [] e
  · exact list_overlooks overlooks e _
  · exact overlooks_pure _

end Evaluator

/-- By induction on the depth, no evaluation sees the lines emitted before it. -/
theorem evaluate_overlooks : ∀ depth e form,
    Overlooks (Store.logged earlier) (evaluate depth e form)
  | 0, _, _ => overlooks_exhaust
  | depth + 1, e, form => Evaluator.step_overlooks (evaluate_overlooks depth) e form

end Evaluation

/-! ### Expansion -/

section Expansion

variable {earlier : Array String}

def Workspace.logged (earlier : Array String) (w : Workspace) : Workspace :=
  { w with store := w.store.logged earlier }

/-- What the store overlooks, the workspace overlooks. -/
theorem onStore_overlooks {α : Type} {x : Run Store α}
    (overlooks : Overlooks (Store.logged earlier) x) :
    Overlooks (Workspace.logged earlier) (Workspace.onStore x) := by
  rintro ⟨store, macros⟩
  have ran := overlooks store
  simp only [Workspace.onStore, Workspace.logged, ran]

mutual

/-- A template sees only what the forms in it see. -/
theorem Template.build_overlooks {σ : Type} {f : σ → σ} {expand : Value → Run σ Value}
    (overlooks : ∀ form, Overlooks f (expand form)) :
    ∀ template, Overlooks f (Template.build expand template)
  | .list items => Template.buildItems_overlooks overlooks items
  | .int _ | .real _ | .bool _ | .marker _ | .text _ | .symbol _ | .closure .. | .builtin _
  | .nil => overlooks_pure _

theorem Template.buildItems_overlooks {σ : Type} {f : σ → σ} {expand : Value → Run σ Value}
    (overlooks : ∀ form, Overlooks f (expand form)) :
    ∀ items, Overlooks f (Template.buildItems expand items)
  | [] => overlooks_pure _
  | head :: rest => by
    unfold Template.buildItems
    split
    · split
      · exact overlooks _
      · exact overlooks_fail _
    · split
      · exact overlooks_fail _
      · refine (Template.buildItems_overlooks overlooks rest).bind fun tail => ?_
        split
        · exact (overlooks _).bind fun _ => overlooks_pure _
        · exact overlooks_fail _
        · exact (Template.build_overlooks overlooks head).bind fun _ => overlooks_pure _

end

namespace Expander

variable {expand : Expander}
  (overlooks : ∀ form, Overlooks (Workspace.logged earlier) (expand form))

include overlooks

theorem required_overlooks (form : Value) :
    Overlooks (Workspace.logged earlier) (expand.required form) :=
  (overlooks form).bind fun _ => overlooks_pure _

theorem all_overlooks (forms : List Value) :
    Overlooks (Workspace.logged earlier) (expand.all forms) :=
  (overlooks_each overlooks forms).bind fun _ => overlooks_pure _

/-- A macro is defined by the same procedure, whatever was emitted. -/
theorem defineMacro_overlooks (depth : Nat) (e : FrameId) (target procedure : Value) :
    Overlooks (Workspace.logged earlier) (expand.defineMacro depth e target procedure) := by
  unfold defineMacro
  split
  · split
    · exact overlooks_fail _
    · refine (required_overlooks overlooks procedure).bind fun expanded => ?_
      refine (onStore_overlooks (evaluate_overlooks depth e expanded)).bind fun value => ?_
      split
      · exact overlooks_update fun _ => rfl
      · exact overlooks_fail _
  · exact overlooks_fail _

theorem special_overlooks (depth : Nat) (e : FrameId) (kind : SpecialForm) (operands : List Value) :
    Overlooks (Workspace.logged earlier) (expand.special depth e kind operands) := by
  have required := required_overlooks overlooks
  have all := all_overlooks overlooks
  unfold special
  split
  · exact overlooks_pure _
  · exact (required _).bind fun _ => (required _).bind fun _ => (required _).bind fun _ =>
      overlooks_pure _
  · split
    · exact (required _).bind fun _ => overlooks_pure _
    · exact (required _).bind fun _ => overlooks_pure _
    · exact overlooks_fail _
  · refine Overlooks.bind ?_ fun _ => overlooks_pure _
    exact (overlooks_ofExcept _).bind fun _ => (all _).bind fun _ => overlooks_pure _
  · exact (all _).bind fun _ => overlooks_pure _
  · exact (defineMacro_overlooks overlooks depth e _ _).bind fun _ => overlooks_pure _
  · exact (Template.build_overlooks required _).bind fun _ => overlooks_pure _
  all_goals exact overlooks_fail _

theorem step_overlooks (depth : Nat) (e : FrameId) (form : Value) :
    Overlooks (Workspace.logged earlier) (expand.step depth e form) := by
  have all := all_overlooks overlooks
  unfold step
  split
  · exact overlooks_pure _
  · split
    · exact special_overlooks overlooks depth e _ _
    · refine Overlooks.bind (overlooks_read fun _ => rfl) fun expander => ?_
      split
      · refine Overlooks.bind (onStore_overlooks ?_) fun _ => overlooks _
        exact Evaluator.apply_overlooks (evaluate_overlooks depth) _ _ e
      · exact (all _).bind fun _ => overlooks_pure _
  · exact (all _).bind fun _ => overlooks_pure _
  · exact overlooks_pure _

end Expander

/-- By induction on the depth, no expansion sees the lines emitted before it. -/
theorem expand_overlooks (e : FrameId) :
    ∀ depth form, Overlooks (Workspace.logged earlier) (expand depth e form)
  | 0, _ => overlooks_exhaust
  | depth + 1, form => Expander.step_overlooks (expand_overlooks e depth) depth e form

end Expansion

/-! ### Sessions -/

namespace Session

def logged (earlier : Array String) (s : Session) : Session :=
  { s with workspace := s.workspace.logged earlier }

/-- Nothing that is carried out sees the lines emitted before it. -/
theorem carryOut_overlooks {earlier : Array String} (e : FrameId) (form : Value) :
    Overlooks (Workspace.logged earlier) (carryOut e form) := by
  refine (expand_overlooks e depth form).bind fun expanded => ?_
  split
  · exact overlooks_pure _
  · exact (onStore_overlooks (evaluate_overlooks depth e _)).bind fun _ => overlooks_pure _

/-- A line comes to the same result whatever was emitted before it. -/
theorem line_logged (earlier : Array String) (s : Session) (source : String) :
    (s.logged earlier).line source = ((s.line source).1, (s.line source).2.logged earlier) := by
  obtain ⟨workspace, root⟩ := s
  simp only [logged, line]
  cases read source.toList with
  | error e => rfl
  | ok form =>
    have ran := @carryOut_overlooks earlier root form workspace
    simp only [ran]

end Session

end SmallLisp
