import SmallLisp.Proofs.RunLaws
import SmallLisp.Session

/-!
How the store grows while programs run.

A form evaluated in the frame `e` can add bindings to `e` and make new frames, and nothing else: this
is `Store.Grows e`. Applying a procedure does not even touch `e`, since the body of a closure runs in
a frame of its own (`Store.Untouched`). Both hold however the computation ends, so they pass from the
parts of a form to the form and from the lines of a session to the session.
-/

namespace SmallLisp

/-! ### Frames and stores that grow -/

/-- `later` is `earlier` with bindings added: nothing is lost, rebound or moved. -/
structure Frame.Extends (earlier later : Frame) : Prop where
  parent : later.parent = earlier.parent
  registered : later.registered = earlier.registered
  find? : ∀ name v, earlier.find? name = some v → later.find? name = some v

theorem Frame.Extends.refl (frame : Frame) : frame.Extends frame :=
  ⟨rfl, rfl, fun _ _ found => found⟩

theorem Frame.Extends.trans {a b c : Frame} (first : a.Extends b) (second : b.Extends c) :
    a.Extends c :=
  ⟨second.parent.trans first.parent, second.registered.trans first.registered,
    fun name v found => second.find? name v (first.find? name v found)⟩

/-- A binding of a new name extends a frame. -/
theorem Frame.extends_cons {frame : Frame} {name : String} (unbound : frame.find? name = none)
    (v : Value) : frame.Extends { frame with bindings := (name, v) :: frame.bindings } := by
  refine ⟨rfl, rfl, fun other w found => ?_⟩
  have differ : other ≠ name := by
    rintro rfl
    simp [unbound] at found
  simpa [Frame.find?, List.lookup_cons, beq_false_of_ne differ] using found

namespace Store

variable {e : FrameId} {s t u : Store}

/-- All frames of `s` are the same in `t`. -/
def Untouched (s t : Store) : Prop :=
  ∀ i < s.frames.size, t.frames[i]? = s.frames[i]?

/-- Of the frames of `s`, at most `e` differs in `t`, by added bindings. -/
structure Grows (e : FrameId) (s t : Store) : Prop where
  size_le : s.frames.size ≤ t.frames.size
  others : ∀ i < s.frames.size, i ≠ e → t.frames[i]? = s.frames[i]?
  own : ∀ frame, s.frames[e]? = some frame →
    ∃ later, t.frames[e]? = some later ∧ frame.Extends later

theorem Untouched.size_le (same : Untouched s t) : s.frames.size ≤ t.frames.size := by
  refine Nat.le_of_not_lt fun fewer => ?_
  have lost := same t.frames.size (by omega)
  rw [Array.getElem?_eq_none (Nat.le_refl _), Array.getElem?_eq_getElem (by omega)] at lost
  cases lost

instance : IsPreorder Store Untouched where
  refl _ _ _ := rfl
  trans _ _ _ first second i old :=
    (second i (Nat.lt_of_lt_of_le old first.size_le)).trans (first i old)

theorem Untouched.grows (same : Untouched s t) (e : FrameId) : Grows e s t where
  size_le := same.size_le
  others i old _ := same i old
  own frame found := by
    have old := (Array.getElem?_eq_some_iff.mp found).1
    exact ⟨frame, (same e old).trans found, .refl frame⟩

theorem Grows.trans (first : Grows e s t) (second : Grows e t u) : Grows e s u where
  size_le := Nat.le_trans first.size_le second.size_le
  others i old other :=
    (second.others i (Nat.lt_of_lt_of_le old first.size_le) other).trans (first.others i old other)
  own frame found := by
    obtain ⟨middle, foundMiddle, extends₁⟩ := first.own frame found
    obtain ⟨later, foundLater, extends₂⟩ := second.own middle foundMiddle
    exact ⟨later, foundLater, extends₁.trans extends₂⟩

instance : IsPreorder Store (Grows e) where
  refl s := Untouched.grows (refl_of Untouched s) e
  trans _ _ _ := Grows.trans

/-- Every frame of the earlier store is there in the later one, with its bindings. -/
theorem Grows.frame (grows : Grows e s t) {i : FrameId} {frame : Frame}
    (found : s.frames[i]? = some frame) :
    ∃ later, t.frames[i]? = some later ∧ frame.Extends later := by
  by_cases own : i = e
  · subst own
    exact grows.own frame found
  · have old := (Array.getElem?_eq_some_iff.mp found).1
    exact ⟨frame, (grows.others i old own).trans found, .refl frame⟩

/-- A name that a frame binds keeps its value. -/
theorem Grows.frameFind? (grows : Grows e s t) {i : FrameId} {name : String} {v : Value}
    (found : s.frameFind? name i = some v) : t.frameFind? name i = some v := by
  obtain ⟨frame, present, bound⟩ := Option.bind_eq_some_iff.mp found
  obtain ⟨later, presentLater, extends_⟩ := grows.frame present
  exact Option.bind_eq_some_iff.mpr ⟨later, presentLater, extends_.find? name v bound⟩

/-! ### The steps by which a store changes -/

theorem untouched_emit (s : Store) (line : String) : Untouched s (s.emit line) :=
  fun _ _ => rfl

theorem untouched_addChild (s : Store) (parent : FrameId) : Untouched s (s.addChild parent) := by
  intro i old
  have differ : i ≠ s.frames.size := by omega
  simp [addChild, Array.getElem?_push, differ]

/-- Binding a name that the frame does not bind yet loses nothing. -/
theorem grows_insert {name : String} (unbound : s.binds e name = false) (v : Value) :
    Grows e s (s.insert e name v) where
  size_le := by simp [insert]
  others i _ other := by simp [insert, Array.getElem?_modify, Ne.symm other]
  own frame found := by
    have fresh : frame.find? name = none := by
      simpa [binds, frameFind?, found] using unbound
    exact ⟨_, by simp [insert, Array.getElem?_modify, found], Frame.extends_cons fresh v⟩

/-- What happens in a frame made after `s` leaves the frames of `s` alone. -/
theorem Grows.untouched_of_addChild {parent : FrameId}
    (grows : Grows s.nextFrame (s.addChild parent) t) : Untouched s t := by
  intro i old
  have stillOld := Nat.lt_of_lt_of_le old (untouched_addChild s parent).size_le
  exact (grows.others i stillOld (Nat.ne_of_lt old)).trans (untouched_addChild s parent i old)

end Store

open Run

/-! ### Evaluation -/

section Evaluation

open Store

theorem find_moves {R : Store → Store → Prop} [IsPreorder Store R] (e : FrameId) (name : String) :
    Moves R (find e name) := by
  intro s
  unfold find
  split <;> exact refl_of R s

theorem requireUnbound_moves {R : Store → Store → Prop} [IsPreorder Store R] (e : FrameId)
    (name : String) : Moves R (requireUnbound e name) := by
  intro s
  unfold requireUnbound
  split <;> exact refl_of R s

/-- A name is bound only after the frame has been asked for it. -/
theorem bindName_grows (e : FrameId) (name : String) (v : Value) :
    Moves (Grows e) (bindName e name v) := by
  intro s
  unfold bindName
  split
  · exact refl_of (Grows e) s
  · next unbound => exact grows_insert (by simpa using unbound) v

theorem bindParameters_grows (e : FrameId) :
    ∀ names operands, Moves (Grows e) (bindParameters e names operands)
  | [], _ => moves_pure ()
  | name :: names, operands =>
    (bindName_grows e name _).bind fun _ => bindParameters_grows e names operands.tail

/-- A built-in procedure does nothing to frames. -/
theorem call_untouched (b : Builtin) (operands : List Value) (e : FrameId) :
    Moves Untouched (b.call operands e) := by
  have emits : ∀ line : Store → String,
      Moves Untouched (Run.update fun s => s.emit (line s)) :=
    fun line s => untouched_emit s (line s)
  cases b <;> unfold Builtin.call
  case newline => exact (emits fun _ => "").bind fun _ => moves_pure _
  case globals => exact (emits fun s => s.rootLine e).bind fun _ => moves_pure _
  all_goals first | exact moves_ofExcept _ | exact moves_pure _ | exact moves_read _

/-- Making a closure takes a stamp and touches no frame. -/
theorem newClosure_untouched (params : List String) (body : Value) (e : FrameId) :
    Moves Untouched (newClosure params body e) :=
  fun _ _ _ => rfl

/-- What touches no frame grows in any. -/
theorem Run.Moves.grows {α : Type} {x : Run Store α} (moves : Moves Untouched x) (e : FrameId) :
    Moves (Grows e) x :=
  fun s => (moves s).grows e

namespace Evaluator

variable {eval : Evaluator}

/-- An evaluator that changes only the frame it is asked to evaluate in. -/
def Confined (eval : Evaluator) : Prop :=
  ∀ e form, Moves (Grows e) (eval e form)

/-- The body of a closure runs in a new frame, so that applying it touches no frame there was. -/
theorem apply_untouched (confined : Confined eval) (f : Value) (operands : List Value)
    (e : FrameId) : Moves Untouched (eval.apply f operands e) := by
  unfold apply
  split
  · exact call_untouched _ operands e
  · next stamp params body scope =>
    -- The number of the new frame depends on the store, so the store is fixed first.
    intro s
    have inNewFrame : Moves (Grows s.nextFrame) (do
        bindParameters s.nextFrame params operands
        eval s.nextFrame body) :=
      (bindParameters_grows s.nextFrame params operands).bind fun _ => confined s.nextFrame body
    exact (inNewFrame (s.addChild scope)).untouched_of_addChild
  · exact moves_fail _

section Moves

-- Whatever relation is asked of the stores before and after, only `bind` has an argument of its own:
-- the other constructs pass on what their parts do, and applications leave all frames alone.
variable {R : FrameId → Store → Store → Prop} [∀ e, IsPreorder Store (R e)]
  (moves : ∀ e form, Moves (R e) (eval e form))

include moves

theorem sequence_moves (e : FrameId) : ∀ forms, Moves (R e) (eval.sequence e forms)
  | [] => moves_pure Value.nil
  | [form] => moves e form
  | form :: next :: forms => (moves e form).bind fun _ => sequence_moves e (next :: forms)

theorem bindingName_moves (e : FrameId) (target : Value) :
    Moves (R e) (eval.bindingName e target) := by
  have resolves : Moves (R e) (eval.bindingTarget e target) := by
    unfold bindingTarget
    split
    · exact moves e _
    · exact moves_pure _
  exact resolves.bind fun resolved => moves_ofExcept _

variable (confined : Confined eval) (still : ∀ e s t, Untouched s t → R e s t)
  (binds : ∀ e target form, Moves (R e) (eval.bind e target form))

include still binds in
/-- Of the special forms only `bind` has an effect of its own. -/
theorem special_moves (form : SpecialForm) (e : FrameId) (operands : List Value) :
    Moves (R e) (eval.special form e operands) := by
  unfold special
  split
  · exact moves_pure _
  · exact binds e _ _
  · refine (moves e _).bind fun test => ?_
    split
    · exact moves e _
    · exact moves e _
  · refine (moves_ofExcept _).bind fun names => ?_
    split
    · exact moves_fail _
    · exact fun s => still e _ _ (newClosure_untouched names _ e s)
  · exact sequence_moves moves e _
  all_goals exact moves_fail _

include confined still binds

theorem list_moves (e : FrameId) (items : List Value) : Moves (R e) (eval.list e items) := by
  have applies : ∀ f operands, Moves (R e) (do
      let args ← Run.each (eval e) operands
      eval.apply f args e) := fun f operands =>
    (moves_each (moves e) operands).bind fun args s =>
      still e _ _ (apply_untouched confined f args e s)
  unfold list
  split
  · exact moves_fail _
  · split
    · exact special_moves moves still binds _ e _
    · exact (find_moves e _).bind fun f => applies f _
  · refine (moves e _).bind fun f => ?_
    split
    · exact applies f _
    · exact moves_fail _

theorem step_moves (e : FrameId) (form : Value) : Moves (R e) (eval.step e form) := by
  unfold step
  split
  · exact find_moves e _
  · exact (find_moves e _).bind fun f s => still e _ _ (apply_untouched confined f [] e s)
  · exact list_moves moves confined still binds e _
  · exact moves_pure _

end Moves

/-- A `bind` form adds to the frame it stands in, and what it evaluates does no more. -/
theorem bind_grows (confined : Confined eval) (e : FrameId) (target form : Value) :
    Moves (Grows e) (eval.bind e target form) := by
  refine (bindingName_moves confined e target).bind fun name => ?_
  refine (requireUnbound_moves e name).bind fun _ => (confined e form).bind fun v => ?_
  exact (bindName_grows e name v).bind fun _ => moves_pure v

/-- If the parts of a form are confined to their frame, so is the form. -/
theorem step_confined (confined : Confined eval) : Confined eval.step :=
  step_moves confined confined (fun e _ _ same => same.grows e) (bind_grows confined)

end Evaluator

/-- By induction on the depth, evaluation in a frame adds to that frame only. -/
theorem evaluate_confined : ∀ depth, (evaluate depth).Confined
  | 0 => fun _ _ => moves_exhaust
  | depth + 1 => Evaluator.step_confined (evaluate_confined depth)

/-- A call works on a frame of its own, so it touches no frame that is there before. -/
theorem apply_untouched (depth : Nat) (f : Value) (operands : List Value) (e : FrameId) :
    Moves Untouched (apply depth f operands e) :=
  Evaluator.apply_untouched (evaluate_confined depth) f operands e

end Evaluation

/-! ### Expansion -/

section Expansion

/-- The store of a workspace grows in the frame `e`; the macros may change. -/
def Workspace.Grows (e : FrameId) (w w' : Workspace) : Prop :=
  Store.Grows e w.store w'.store

variable {e : FrameId}

instance : IsPreorder Workspace (Workspace.Grows e) where
  refl w := refl_of (Store.Grows e) w.store
  trans _ _ _ := Store.Grows.trans

theorem onStore_grows {α : Type} {x : Run Store α} (moves : Moves (Store.Grows e) x) :
    Moves (Workspace.Grows e) (Workspace.onStore x) :=
  fun w => moves w.store

mutual

/-- Building a template does to the state what expanding its unquoted forms does. -/
theorem Template.build_moves {σ : Type} {R : σ → σ → Prop} [IsPreorder σ R]
    {expand : Value → Run σ Value} (moves : ∀ form, Moves R (expand form)) :
    ∀ template, Moves R (Template.build expand template)
  | .list items => Template.buildItems_moves moves items
  | .int _ | .real _ | .bool _ | .marker _ | .text _ | .symbol _ | .closure .. | .builtin _ | .nil =>
    moves_pure _

theorem Template.buildItems_moves {σ : Type} {R : σ → σ → Prop} [IsPreorder σ R]
    {expand : Value → Run σ Value} (moves : ∀ form, Moves R (expand form)) :
    ∀ items, Moves R (Template.buildItems expand items)
  | [] => moves_pure _
  | head :: rest => by
    unfold Template.buildItems
    split
    · split
      · exact moves _
      · exact moves_fail _
    · split
      · exact moves_fail _
      · refine (Template.buildItems_moves moves rest).bind fun tail => ?_
        split
        · exact (moves _).bind fun _ => moves_pure _
        · exact moves_fail _
        · exact (Template.build_moves moves head).bind fun _ => moves_pure _

end

namespace Expander

section Moves

variable {R : Workspace → Workspace → Prop} [IsPreorder Workspace R] {expand : Expander}
  (moves : ∀ form, Moves R (expand form))

include moves

theorem required_moves (form : Value) : Moves R (expand.required form) :=
  (moves form).bind fun _ => moves_pure _

theorem all_moves (forms : List Value) : Moves R (expand.all forms) :=
  (moves_each moves forms).bind fun _ => moves_pure _

variable {depth : Nat} {e : FrameId}
  (evaluates : ∀ form, Moves R (Workspace.onStore (evaluate depth e form)))
  (defines : ∀ name (f : Value), SpecialForm.ofName? name = none → f.isCallable = true →
    Moves R (Run.update fun w : Workspace => { w with macros := w.macros.define name f }))

include evaluates defines

/-- The procedure of a macro is run where the macro is defined. -/
theorem defineMacro_moves (target procedure : Value) :
    Moves R (expand.defineMacro depth e target procedure) := by
  unfold defineMacro
  split
  · next name =>
    split
    · exact moves_fail _
    · next ordinary =>
      refine (required_moves moves procedure).bind fun expanded =>
        (evaluates expanded).bind fun value => ?_
      split
      · next callable => exact defines name value (by simpa using ordinary) callable
      · exact moves_fail _
  · exact moves_fail _

theorem special_moves (kind : SpecialForm) (operands : List Value) :
    Moves R (expand.special depth e kind operands) := by
  unfold special
  split
  · exact moves_pure _
  · exact (required_moves moves _).bind fun _ => (required_moves moves _).bind fun _ =>
      (required_moves moves _).bind fun _ => moves_pure _
  · split
    · exact (required_moves moves _).bind fun _ => moves_pure _
    · exact (required_moves moves _).bind fun _ => moves_pure _
    · exact moves_fail _
  · refine Moves.bind ?_ fun _ => moves_pure _
    exact (moves_ofExcept _).bind fun _ => (all_moves moves _).bind fun _ => moves_pure _
  · exact (all_moves moves _).bind fun _ => moves_pure _
  · exact (defineMacro_moves moves evaluates defines _ _).bind fun _ => moves_pure _
  · exact (Template.build_moves (required_moves moves) _).bind fun _ => moves_pure _
  all_goals exact moves_fail _

/-- What expansion of the parts, evaluation of procedures, calls of expanders and the definition of
macros do to the workspace, a step of expansion does. -/
theorem step_moves
    (applies : ∀ f operands, Moves R (Workspace.onStore (apply depth f operands e)))
    (form : Value) : Moves R (expand.step depth e form) := by
  unfold step
  split
  · exact moves_pure _
  · split
    · exact special_moves moves evaluates defines _ _
    · refine (moves_read _).bind fun expander => ?_
      split
      · exact (applies _ _).bind fun _ => moves _
      · exact (all_moves moves _).bind fun _ => moves_pure _
  · exact (all_moves moves _).bind fun _ => moves_pure _
  · exact moves_pure _

end Moves

theorem step_grows {expand : Expander} (grows : ∀ form, Moves (Workspace.Grows e) (expand form))
    (depth : Nat) (form : Value) : Moves (Workspace.Grows e) (expand.step depth e form) := by
  refine step_moves grows (fun form => ?_) (fun name f _ _ w => ?_) (fun f operands => ?_) form
  · exact onStore_grows (evaluate_confined depth e form)
  · exact refl_of (Store.Grows e) w.store
  · exact onStore_grows ((apply_untouched depth f operands e).grows e)

end Expander

/-- By induction on the depth, expansion adds to the frame its macros run from only. -/
theorem expand_grows (e : FrameId) :
    ∀ depth form, Moves (Workspace.Grows e) (expand depth e form)
  | 0, _ => moves_exhaust
  | depth + 1, form => Expander.step_grows (expand_grows e depth) depth form

end Expansion

/-! ### Sessions -/

namespace Session

/-- The session after some lines, those that failed included. -/
def after (session : Session) (lines : List String) : Session :=
  lines.foldl (fun session source => (session.line source).2) session

def rootFind? (session : Session) (name : String) : Option Value :=
  session.workspace.store.frameFind? name session.root

theorem carryOut_grows (e : FrameId) (form : Value) :
    Moves (Workspace.Grows e) (carryOut e form) := by
  refine (expand_grows e depth form).bind fun expanded => ?_
  split
  · exact moves_pure _
  · exact (onStore_grows (evaluate_confined depth e _)).bind fun _ => moves_pure _

/-- A form is carried out as it is expanded and evaluated with any depth that is enough. -/
theorem carryOut_eq_value {e : FrameId} {form f v : Value} {w : Workspace} {s t : Store}
    {macros : MacroTable} (enough : Nat) (within : enough ≤ depth)
    (expands : ∀ more, expand (more + enough) e form w = (.value (some f), ⟨s, macros⟩))
    (evaluates : ∀ more, evaluate (more + enough) e f s = (.value v, t)) :
    carryOut e form w = (.value (some v), ⟨t, macros⟩) := by
  have expanded := expands (depth - enough)
  have evaluated := evaluates (depth - enough)
  rw [Nat.sub_add_cancel within] at expanded evaluated
  rw [carryOut, bind_apply, expanded]
  refine bind_eq_value_iff.mpr ⟨v, ⟨t, macros⟩, ?_, rfl⟩
  rw [Workspace.onStore, evaluated]

/-- A form whose expansion fails with any depth that is enough fails. -/
theorem carryOut_eq_fault {e : FrameId} {form : Value} {w w' : Workspace} {cause : Fault}
    (enough : Nat) (within : enough ≤ depth)
    (expands : ∀ more, expand (more + enough) e form w = (.fault cause, w')) :
    carryOut e form w = (.fault cause, w') := by
  have expanded := expands (depth - enough)
  rw [Nat.sub_add_cancel within] at expanded
  rw [carryOut, bind_apply, expanded]

/-- A line that cannot be read changes nothing; any other line carries out a form. -/
theorem line_session (session : Session) (source : String) :
    (session.line source).2 = session ∨
      ∃ form, (session.line source).2 =
        ⟨(carryOut session.root form session.workspace).2, session.root⟩ := by
  obtain ⟨workspace, root⟩ := session
  simp only [line]
  cases read source.toList with
  | error cause => exact .inl rfl
  | ok form => exact .inr ⟨form, rfl⟩

/-- A line, even one that fails, only adds to the root frame of its session. -/
theorem line_grows (session : Session) (source : String) :
    (session.line source).2.root = session.root ∧
      Workspace.Grows session.root session.workspace (session.line source).2.workspace := by
  obtain same | ⟨form, carried⟩ := line_session session source
  · rw [same]
    exact ⟨rfl, refl_of (Workspace.Grows _) _⟩
  · rw [carried]
    exact ⟨rfl, carryOut_grows session.root form session.workspace⟩

/-- A line keeps what the root frame binds. -/
theorem line_rootFind? {session : Session} {name : String} {v : Value}
    (bound : session.rootFind? name = some v) (source : String) :
    (session.line source).2.rootFind? name = some v := by
  obtain ⟨sameRoot, grows⟩ := line_grows session source
  unfold rootFind?
  rw [sameRoot]
  exact grows.frameFind? bound

/-- Any number of lines keep what the root frame binds. -/
theorem after_rootFind? {session : Session} {name : String} {v : Value}
    (bound : session.rootFind? name = some v) (lines : List String) :
    (session.after lines).rootFind? name = some v := by
  induction lines generalizing session with
  | nil => exact bound
  | cons source lines ih => exact ih (line_rootFind? bound source)

/-- A fresh session has every built-in procedure under its name. -/
theorem start_rootFind?_builtin (b : Builtin) :
    start.rootFind? b.name = some (.builtin b) := by
  cases b <;> rfl

end Session

/-- Bindings are permanent. Evaluating a form in the frame `e` leaves every other frame as it is and
keeps the bindings and the parent of `e`, whether it ends with a value or not; applying a procedure
leaves every frame as it is. So the lines of a session, failing ones included, never unbind or
rebind a name of the root frame, and the built-in procedures keep their names. -/
theorem bindings_permanent :
    (∀ depth e form s, Store.Grows e s (evaluate depth e form s).2) ∧
    (∀ depth f operands e s, Store.Untouched s (apply depth f operands e s).2) ∧
    (∀ (session : Session) (name : String) (v : Value), session.rootFind? name = some v →
      ∀ lines, (session.after lines).rootFind? name = some v) ∧
    ∀ (b : Builtin) (lines : List String),
      (Session.start.after lines).rootFind? b.name = some (.builtin b) := by
  refine ⟨evaluate_confined, apply_untouched, fun session name v bound lines => ?_,
    fun b lines => ?_⟩
  · exact Session.after_rootFind? bound lines
  · exact Session.after_rootFind? (Session.start_rootFind?_builtin b) lines

/-- A line that binds `x` again and lines that cannot be read leave a session's `x` as it is. -/
theorem bindings_permanent_rebound :
    let session : Session := ⟨⟨Store.empty.addRoot [("x", .int 1)], .empty⟩, 0⟩
    session.rootFind? "x" = some (.int 1) ∧
      (session.after ["(bind x 2)", "(", "(bind y x)"]).rootFind? "x" = some (.int 1) :=
  ⟨rfl, bindings_permanent.2.2.1 _ _ _ rfl _⟩

end SmallLisp
