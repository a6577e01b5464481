import SmallLisp.Proofs.Binding
import SmallLisp.Proofs.Grammar
import SmallLisp.Proofs.MacroFree
import SmallLisp.Proofs.Occurrence

/-!
The elementary changes of a store, and what survives them.

A running program changes the store in few ways: it makes a frame below one that is there, binds a
name in a frame, stamps a closure, or emits a line, which is blank or lists the names of a root.
These are the cases of `Store.Change`. A property of stores that survives each of them survives
evaluation and expansion, wherever these end or are given up, and with them the lines of a session
(`evaluateUntil_upholds`, `expandUntil_upholds`, `Session.line_upheld`). What the procedures in a
store are like matters too, since a closure makes its frames below the one it was made in: it is
described by a requirement `P` on procedures, which a `Lasting` requirement passes on from the
values a program holds to those it computes.
-/

namespace SmallLisp

open Run

/-! ### Requirements on procedures -/

namespace Value

/-- All procedures that occur in the value are as `P` requires it where there are `n` frames. -/
abbrev Meets (P : Nat → Value → Prop) (n : Nat) (v : Value) : Prop :=
  v.AllProcedures (P n)

/-- A requirement that is not lost when frames are added, that asks of a closure at least that the
frame it was made in is there, and that the closures made from function forms satisfy. -/
structure Lasting (P : Nat → Value → Prop) : Prop where
  later : ∀ {n m : Nat} {f : Value}, n ≤ m → P n f → P m f
  inside : ∀ {n stamp : Nat} {params : List String} {body : Value} {scope : FrameId},
    P n (closure stamp params body scope) → scope < n
  made : ∀ {n : Nat} {params : List String} {e : FrameId}, params.Nodup → e < n →
    ∀ stamp body, P n (closure stamp params body e)

variable {P : Nat → Value → Prop} {n m : Nat}

/-- A value that meets a lasting requirement goes on to meet it. -/
theorem Lasting.meets (lasting : Lasting P) {v : Value} (grown : n ≤ m) (meets : v.Meets P n) :
    v.Meets P m :=
  meets.mono fun _ => lasting.later grown

/-- A list headed by a symbol meets a requirement if its other elements do. -/
theorem meets_headed {name : String} {operands : List Value} (meets : ∀ v ∈ operands, v.Meets P n) :
    (list (symbol name :: operands)).Meets P n :=
  allProcedures_list_iff.mpr
    (List.forall_mem_cons.mpr ⟨allProcedures_of_atom rfl rfl, meets⟩)

end Value

/-! ### Elementary changes -/

namespace Store

/-- What a running program does to a store in one go, if the values it binds meet `P`. -/
inductive Change (P : Nat → Value → Prop) (s : Store) : Store → Prop
  | frame {parent : FrameId} : parent < s.frames.size → Change P s (s.addChild parent)
  | binding {e : FrameId} {name : String} {v : Value} : e < s.frames.size →
      s.binds e name = false → v.Meets P s.frames.size → Change P s (s.insert e name v)
  | stamp : Change P s { s with stamps := s.stamps + 1 }
  | blank : Change P s (s.emit "")
  | globals {e : FrameId} : e < s.frames.size → Change P s (s.emit (s.rootLine e))

/-- An elementary change adds bindings to one frame at most, and takes nothing away. -/
theorem Change.grows {P : Nat → Value → Prop} {s t : Store} (change : s.Change P t) :
    ∃ own, Grows own s t := by
  have still : ∀ u : Store, u.frames = s.frames → Grows 0 s u := by
    intro u same
    have untouched : Untouched s u := fun i _ => by rw [same]
    exact untouched.grows 0
  cases change with
  | @frame parent => exact ⟨parent, (untouched_addChild s parent).grows parent⟩
  | @binding e name v _ unbound => exact ⟨e, grows_insert unbound v⟩
  | stamp => exact ⟨0, still _ rfl⟩
  | blank => exact ⟨0, still _ rfl⟩
  | globals => exact ⟨0, still _ rfl⟩

theorem Change.size_le {P : Nat → Value → Prop} {s t : Store} (change : s.Change P t) :
    s.frames.size ≤ t.frames.size := by
  obtain ⟨own, grows⟩ := change.grows
  exact grows.size_le

/-- A frame after an elementary change was there before, perhaps without one of its bindings, or is
a new and empty one. -/
theorem Change.frame_inv {P : Nat → Value → Prop} {s t : Store} (change : s.Change P t) {i : FrameId}
    {frame : Frame} (found : t.frames[i]? = some frame) :
    s.frames[i]? = some frame ∨
    (∃ old name v, s.frames[i]? = some old ∧ old.find? name = none ∧ v.Meets P s.frames.size ∧
      frame = { old with bindings := (name, v) :: old.bindings }) ∨
    (i = s.frames.size ∧ ∃ parent < s.frames.size, frame = ⟨[], some parent, true⟩) := by
  cases change with
  | @frame parent inside =>
    simp only [addChild, Array.getElem?_push] at found
    split at found
    · next newest =>
      cases found
      exact .inr (.inr ⟨newest, parent, inside, rfl⟩)
    · exact .inl found
  | @binding e name v _ unbound value =>
    rw [frame_insert] at found
    obtain ⟨old, before, same⟩ := Option.map_eq_some_iff.mp found
    by_cases own : e = i
    · rw [if_pos own] at same
      have fresh : old.find? name = none := by
        simpa [binds, frameFind?, own, before] using unbound
      exact .inr (.inl ⟨old, name, v, before, fresh, value, same.symm⟩)
    · rw [if_neg own] at same
      exact .inl (same ▸ before)
  | stamp => exact .inl found
  | blank => exact .inl found
  | globals => exact .inl found

/-- An elementary change emits one line at most. -/
theorem Change.emitted_inv {P : Nat → Value → Prop} {s t : Store} (change : s.Change P t) :
    t.emitted = s.emitted ∨ t.emitted = s.emitted.push "" ∨
      ∃ e < s.frames.size, t.emitted = s.emitted.push (s.rootLine e) := by
  cases change with
  | frame => exact .inl rfl
  | binding => exact .inl rfl
  | stamp => exact .inl rfl
  | blank => exact .inr (.inl rfl)
  | @globals e inside => exact .inr (.inr ⟨e, inside, rfl⟩)

/-- The values in frames go on meeting a lasting requirement. -/
theorem Change.allValues {P : Nat → Value → Prop} (lasting : Value.Lasting P) {s t : Store}
    (change : s.Change P t) (all : s.AllValues (Value.Meets P s.frames.size)) :
    t.AllValues (Value.Meets P t.frames.size) := by
  intro i frame found
  have old : ∀ frame, s.frames[i]? = some frame →
      ∀ binding ∈ frame.bindings, binding.2.Meets P t.frames.size := by
    intro frame found binding member
    exact lasting.meets change.size_le (all i frame found binding member)
  rcases change.frame_inv found with same | ⟨frame, name, v, before, -, value, rfl⟩ | ⟨-, _, -, rfl⟩
  · exact old _ same
  · exact List.forall_mem_cons.mpr ⟨lasting.meets change.size_le value, old frame before⟩
  · exact List.forall_mem_nil _

/-- The way up from every frame goes on ending at a root. -/
theorem Change.rooted {P : Nat → Value → Prop} {s t : Store} (change : s.Change P t)
    (rooted : ∀ e < s.frames.size, s.Rooted e) : ∀ e < t.frames.size, t.Rooted e := by
  intro e inside
  obtain ⟨own, grows⟩ := change.grows
  have found : t.frames[e]? = some t.frames[e] := Array.getElem?_eq_getElem inside
  have old : ∀ frame, s.frames[e]? = some frame → t.Rooted e := by
    intro frame before
    exact (rooted e (Array.getElem?_eq_some_iff.mp before).1).of_grows grows
  rcases change.frame_inv found with same | ⟨frame, _, _, before, -⟩ | ⟨new, parent, older, made⟩
  · exact old _ same
  · exact old frame before
  · rw [made] at found
    exact .child found rfl (new ▸ older) ((rooted parent older).of_grows grows)

/-- The property `good` survives all elementary changes, and in a good store the values meet `P`. -/
structure Upkeep (P : Nat → Value → Prop) (good : Store → Prop) : Prop extends Value.Lasting P where
  values : ∀ {s : Store}, good s → s.AllValues (Value.Meets P s.frames.size)
  change : ∀ {s t : Store}, good s → s.Change P t → good t

/-- From a good store with `n` frames at least, the computation leads to a good store that has lost
no frame, and a value it ends with satisfies `Q` for the frames there are then. -/
abbrev Upholds {α : Type} (good : Store → Prop) (n : Nat) (Q : Nat → α → Prop) (x : Run Store α) :
    Prop :=
  Run.Keeps good (fun s => s.frames.size) n Q x

end Store

/-! ### Parameter lists -/

theorem parameterNamesFrom_nodup {seen : List String} {items : List Value} {names : List String}
    (named : parameterNamesFrom seen items = .ok names) :
    names.Nodup ∧ ∀ name ∈ names, name ∉ seen := by
  fun_induction parameterNamesFrom seen items generalizing names with
  | case1 =>
    cases named
    exact ⟨.nil, nofun⟩
  | case2 => cases named
  | case3 seen name items fresh ih =>
    cases rest : parameterNamesFrom (name :: seen) items with
    | error => simp [rest, Except.map] at named
    | ok others =>
      obtain ⟨distinct, apart⟩ := ih rest
      obtain rfl : name :: others = names := by simpa [rest, Except.map] using named
      refine ⟨List.nodup_cons.mpr ⟨fun member => ?_, distinct⟩, ?_⟩
      · exact apart name member List.mem_cons_self
      · refine List.forall_mem_cons.mpr ⟨fresh, fun other member old => ?_⟩
        exact apart other member (List.mem_cons_of_mem _ old)
  | case4 => cases named

/-- A parameter list that is accepted has no name twice. -/
theorem parameterNames_nodup {phase : Phase} {params : Value} {names : List String}
    (named : parameterNames phase params = .ok names) : names.Nodup := by
  unfold parameterNames at named
  split at named
  · split at named
    · next found =>
      cases named
      exact (parameterNamesFrom_nodup found).1
    · cases named
  · cases named

/-! ### Evaluation -/

/-- Evaluation that is given up, with the store as it is then, at the first form for which `stop`
holds. -/
def evaluateUntil (stop : FrameId → Value → Store → Bool) : Nat → Evaluator
  | 0 => fun _ _ => .exhaust
  | depth + 1 => fun e form s =>
    if stop e form s then (.exhausted, s) else (evaluateUntil stop depth).step e form s

/-- Evaluation that is never given up is evaluation. -/
theorem evaluateUntil_never : ∀ depth, evaluateUntil (fun _ _ _ => false) depth = evaluate depth
  | 0 => rfl
  | depth + 1 => by
    rw [evaluate, ← evaluateUntil_never depth]
    rfl

/-- A built-in procedure leaves the store as it is or emits a line. -/
theorem Builtin.call_store (b : Builtin) (operands : List Value) (e : FrameId) (s : Store) :
    (b.call operands e s).2 = s ∨ (b.call operands e s).2 = s.emit "" ∨
      (b.call operands e s).2 = s.emit (s.rootLine e) := by
  have given : ∀ r : Except Fault Value, ((.ofExcept r : Run Store Value) s).2 = s := by
    rintro (cause | w) <;> rfl
  cases b with
  | newline => exact .inr (.inl rfl)
  | globals => exact .inr (.inr rfl)
  | equal | isBoolean | isInteger | isReal | isText | isSymbol | isBound | list => exact .inl rfl
  | _ => exact .inl (given _)

section Evaluation

open Store Value

variable {P : Nat → Value → Prop} {good : Store → Prop} (up : Upkeep P good)
  {n : Nat} {e : FrameId} {v : Value} {operands : List Value}

include up

theorem find_upholds (e : FrameId) (name : String) : Upholds good n (Meets P) (find e name) := by
  intro s started _
  unfold find
  split
  · next v found =>
    refine ⟨started, Nat.le_refl _, fun a same => ?_⟩
    cases same
    exact (up.values started).lookup? found
  · exact ⟨started, Nat.le_refl _, nofun⟩

omit up in
theorem requireUnbound_upholds (e : FrameId) (name : String) :
    Upholds good n (fun _ _ => True) (requireUnbound e name) := by
  intro s started _
  unfold requireUnbound
  split <;> exact ⟨started, Nat.le_refl _, fun _ _ => trivial⟩

/-- A binding is an elementary change, as the name was free. -/
theorem bindName_upholds (inside : e < n) (name : String) (value : v.Meets P n) :
    Upholds good n (fun _ _ => True) (bindName e name v) := by
  intro s started enough
  unfold bindName
  split
  · exact ⟨started, Nat.le_refl _, fun _ _ => trivial⟩
  · next bound =>
    have unbound : s.binds e name = false := Bool.eq_false_iff.mpr bound
    have binding : s.Change P (s.insert e name v) :=
      .binding (Nat.lt_of_lt_of_le inside enough) unbound (up.meets enough value)
    exact ⟨up.change started binding, (grows_insert unbound v).size_le, fun _ _ => trivial⟩

theorem newFrame_upholds {parent : FrameId} (inside : parent < n) :
    Upholds good n (fun m frame => frame < m) (newFrame parent) := by
  intro s started enough
  have made := up.change started (.frame (Nat.lt_of_lt_of_le inside enough))
  refine ⟨made, (untouched_addChild s parent).size_le, fun frame same => ?_⟩
  cases same
  simp [newFrame, addChild, nextFrame]

/-- A new closure meets the requirement, since its frame is there and its parameters differ. -/
theorem newClosure_upholds {params : List String} {body : Value} (distinct : params.Nodup)
    (inner : body.Meets P n) (inside : e < n) :
    Upholds good n (Meets P) (newClosure params body e) := by
  intro s started enough
  refine ⟨up.change started .stamp, Nat.le_refl _, fun f same => ?_⟩
  cases same
  have own := up.made distinct (Nat.lt_of_lt_of_le inside enough) s.stamps body
  exact allProcedures_closure_iff.mpr ⟨own, up.meets enough inner⟩

theorem bindParameters_upholds (inside : e < n) :
    ∀ (params : List String) {operands : List Value}, (∀ v ∈ operands, v.Meets P n) →
      Upholds good n (fun _ _ => True) (bindParameters e params operands)
  | [], _, _ => keeps_pure fun _ _ => trivial
  | name :: names, operands, meets => by
    have first : (operands.headD .nil).Meets P n := by
      cases operands with
      | nil => exact allProcedures_of_atom rfl rfl
      | cons v operands => exact meets v List.mem_cons_self
    have others : ∀ v ∈ operands.tail, v.Meets P n := by
      intro v member
      exact meets v (List.mem_of_mem_tail member)
    exact (bindName_upholds up inside name first).bind fun _ _ grown _ =>
      (bindParameters_upholds inside names others).later grown

/-- A built-in procedure brings no procedure in that its operands do not have. -/
theorem call_upholds {b : Builtin} (inside : e < n) (meets : ∀ v ∈ operands, v.Meets P n) :
    Upholds good n (Meets P) (b.call operands e) := by
  intro s started enough
  have present : e < s.frames.size := Nat.lt_of_lt_of_le inside enough
  have ended : good (b.call operands e s).2 ∧ (b.call operands e s).2.frames = s.frames := by
    rcases b.call_store operands e s with same | blank | globals
    · rw [same]
      exact ⟨started, rfl⟩
    · rw [blank]
      exact ⟨up.change started .blank, rfl⟩
    · rw [globals]
      exact ⟨up.change started (.globals present), rfl⟩
  obtain ⟨kept, sameFrames⟩ := ended
  have sameSize : (b.call operands e s).2.frames.size = s.frames.size := congrArg _ sameFrames
  refine ⟨kept, Nat.le_of_eq sameSize.symm, fun w given => ?_⟩
  have ran : b.call operands e s = (.value w, _) := Prod.ext given rfl
  have value : w.Meets P s.frames.size :=
    Builtin.allProcedures_call (fun v member => up.meets enough (meets v member)) ran
  exact up.meets (Nat.le_of_eq sameSize.symm) value

namespace Evaluator

def Upholds (P : Nat → Value → Prop) (good : Store → Prop) (eval : Evaluator) : Prop :=
  ∀ ⦃n : Nat⦄ ⦃e : FrameId⦄ ⦃form : Value⦄, e < n → form.Meets P n →
    Store.Upholds good n (Meets P) (eval e form)

variable {eval : Evaluator} (upholds : eval.Upholds P good) (inside : e < n)

include upholds inside

/-- A call makes one frame below the frame of its closure, and then runs the body. -/
theorem apply_upholds {f : Value} (procedure : f.Meets P n) (meets : ∀ v ∈ operands, v.Meets P n) :
    Store.Upholds good n (Meets P) (eval.apply f operands e) := by
  unfold apply
  split
  · exact call_upholds up inside meets
  · next stamp params body scope =>
    -- The body is as old as the closure, but it runs in a frame made just now.
    obtain ⟨own, inner⟩ := allProcedures_closure_iff.mp procedure
    refine (newFrame_upholds up (up.inside own)).bind fun m frame grown present => ?_
    have meets' : ∀ v ∈ operands, v.Meets P m := fun v member => up.meets grown (meets v member)
    refine (bindParameters_upholds up present params meets').bind fun m' _ grown' _ => ?_
    exact upholds (Nat.lt_of_lt_of_le present grown') (up.meets (Nat.le_trans grown grown') inner)
  · exact keeps_fail _

omit up in
theorem sequence_upholds :
    ∀ {forms : List Value}, (∀ v ∈ forms, v.Meets P n) →
      Store.Upholds good n (Meets P) (eval.sequence e forms)
  | [], _ => keeps_pure fun _ _ => allProcedures_of_atom rfl rfl
  | [form], meets => upholds inside (meets form List.mem_cons_self)
  | form :: next :: forms, meets => by
    obtain ⟨first, others⟩ := List.forall_mem_cons.mp meets
    exact (upholds inside first).bind fun m _ grown _ => (sequence_upholds others).later grown

theorem bind_upholds {target form : Value} (targetMeets : target.Meets P n)
    (formMeets : form.Meets P n) :
    Store.Upholds good n (Meets P) (eval.bind e target form) := by
  have resolves : Store.Upholds good n (fun _ _ => True) (eval.bindingName e target) := by
    refine Run.Keeps.bind (Q := Meets P) ?_ fun _ _ _ _ => keeps_ofExcept fun _ _ _ _ => trivial
    unfold bindingTarget
    split
    · exact upholds inside targetMeets
    · exact keeps_pure fun m grown => up.meets grown targetMeets
  refine resolves.bind fun m name grown _ => ?_
  refine (requireUnbound_upholds e name).bind fun m' _ grown' _ => ?_
  refine ((upholds inside formMeets).later (Nat.le_trans grown grown')).bind
    fun m'' v grown'' value => ?_
  have present : e < m'' :=
    Nat.lt_of_lt_of_le inside (Nat.le_trans grown (Nat.le_trans grown' grown''))
  exact (bindName_upholds up present name value).bind fun _ _ grown _ =>
    keeps_pure fun _ grown' => up.meets (Nat.le_trans grown grown') value

/-- Special forms change the store by what their parts do, by a binding or by a stamp. -/
theorem special_upholds {form : SpecialForm} (meets : ∀ v ∈ operands, v.Meets P n) :
    Store.Upholds good n (Meets P) (eval.special form e operands) := by
  unfold special
  split
  · exact keeps_pure fun m grown => up.meets grown (meets _ List.mem_cons_self)
  · exact bind_upholds up upholds inside (meets _ (by simp)) (meets _ (by simp))
  · next test success failure =>
    refine (upholds inside (meets test (by simp))).bind fun m t grown _ => ?_
    split
    · exact (upholds inside (meets success (by simp))).later grown
    · exact (upholds inside (meets failure (by simp))).later grown
  · next params body =>
    have names : Store.Upholds good n (fun _ names => names.Nodup)
        (.ofExcept (parameterNames .evaluation params)) :=
      keeps_ofExcept fun _ named _ _ => parameterNames_nodup named
    refine names.bind fun m names grown distinct => ?_
    split
    · exact keeps_fail _
    · have inner : (bodyForm body).Meets P n := allProcedures_bodyForm fun v member =>
        meets v (List.mem_cons_of_mem _ member)
      exact newClosure_upholds up distinct (up.meets grown inner) (Nat.lt_of_lt_of_le inside grown)
  · exact sequence_upholds upholds inside meets
  all_goals exact keeps_fail _

theorem list_upholds {items : List Value} (meets : ∀ v ∈ items, v.Meets P n) :
    Store.Upholds good n (Meets P) (eval.list e items) := by
  have applies : ∀ {m f operands}, n ≤ m → f.Meets P m → (∀ v ∈ operands, v.Meets P n) →
      Store.Upholds good m (Meets P) (do
        let args ← Run.each (eval e) operands
        eval.apply f args e) := by
    intro m f operands grown procedure meets
    have args := keeps_each (R := Meets P) (fun _ _ _ => up.meets) fun v member =>
      upholds inside (meets v member)
    refine (args.later grown).bind fun m' args grown' given => ?_
    have present : e < m' := Nat.lt_of_lt_of_le inside (Nat.le_trans grown grown')
    exact apply_upholds up upholds present (up.meets grown' procedure) given
  unfold list
  split
  · exact keeps_fail _
  · next name operands =>
    have operandsMeet : ∀ v ∈ operands, v.Meets P n := fun v member =>
      meets v (List.mem_cons_of_mem _ member)
    split
    · exact special_upholds up upholds inside operandsMeet
    · exact (find_upholds up e name).bind fun m f grown procedure =>
        applies grown procedure operandsMeet
  · next head operands _ =>
    refine (upholds inside (meets head List.mem_cons_self)).bind fun m f grown procedure => ?_
    split
    · exact applies grown procedure fun v member => meets v (List.mem_cons_of_mem _ member)
    · exact keeps_fail _

omit inside in
theorem step_upholds : eval.step.Upholds P good := by
  intro n e form inside meets
  unfold step
  split
  · exact find_upholds up e _
  · refine (find_upholds up e _).bind fun m f grown procedure => ?_
    exact apply_upholds up upholds (Nat.lt_of_lt_of_le inside grown) procedure (by simp)
  · exact list_upholds up upholds inside (allProcedures_list_iff.mp meets)
  · exact keeps_pure fun m grown => up.meets grown meets

end Evaluator

/-- Wherever an evaluation is given up, the store is good. -/
theorem evaluateUntil_upholds (stop : FrameId → Value → Store → Bool) :
    ∀ depth, (evaluateUntil stop depth).Upholds P good
  | 0 => fun _ _ _ _ _ => keeps_exhaust
  | depth + 1 => by
    intro n e form inside meets s started enough
    unfold evaluateUntil
    split
    · exact ⟨started, Nat.le_refl _, nofun⟩
    · exact Evaluator.step_upholds up (evaluateUntil_upholds stop depth) inside meets s started enough

/-- By induction on the depth, evaluation makes elementary changes only. -/
theorem evaluate_upholds (depth : Nat) : (evaluate depth).Upholds P good := by
  rw [← evaluateUntil_never]
  exact evaluateUntil_upholds up _ depth

end Evaluation

/-! ### Expansion -/

/-- Expansion that is given up, with the workspace as it is then, at the first form for which `stop`
holds. -/
def expandUntil (stop : Value → Workspace → Bool) : Nat → FrameId → Expander
  | 0, _ => fun _ => .exhaust
  | depth + 1, e => fun form w =>
    if stop form w then (.exhausted, w) else (expandUntil stop depth e).step depth e form w

/-- Expansion that is never given up is expansion. -/
theorem expandUntil_never (e : FrameId) :
    ∀ depth, expandUntil (fun _ _ => false) depth e = expand depth e
  | 0 => rfl
  | depth + 1 => by
    rw [expand, ← expandUntil_never e depth]
    rfl

namespace Workspace

/-- What a running program does to a workspace in one go: an elementary change of the store, or the
definition of a macro. -/
inductive Change (P : Nat → Value → Prop) (w : Workspace) : Workspace → Prop
  | store {t : Store} : w.store.Change P t → Change P w { w with store := t }
  | define {name : String} {f : Value} : f.Meets P w.store.frames.size →
      Change P w { w with macros := w.macros.define name f }

/-- The procedures that expand macros go on meeting a lasting requirement. -/
theorem Change.macros {P : Nat → Value → Prop} (lasting : Value.Lasting P) {w w' : Workspace}
    (change : w.Change P w')
    (all : ∀ entry ∈ w.macros.entries, entry.2.Meets P w.store.frames.size) :
    ∀ entry ∈ w'.macros.entries, entry.2.Meets P w'.store.frames.size := by
  cases change with
  | store change =>
    intro entry member
    exact lasting.meets change.size_le (all entry member)
  | define procedure =>
    refine List.forall_mem_cons.mpr ⟨procedure, fun entry member => ?_⟩
    exact all entry (List.mem_of_mem_filter member)

/-- The property `good` survives all changes of a workspace, and in a good workspace the values and
the procedures that expand macros meet `P`. -/
structure Upkeep (P : Nat → Value → Prop) (good : Workspace → Prop) : Prop
    extends Value.Lasting P where
  values : ∀ {w : Workspace}, good w → w.store.AllValues (Value.Meets P w.store.frames.size)
  macros : ∀ {w : Workspace}, good w →
    ∀ entry ∈ w.macros.entries, entry.2.Meets P w.store.frames.size
  change : ∀ {w w' : Workspace}, good w → w.Change P w' → good w'

/-- As `Store.Upholds`, for computations that may also define macros. -/
abbrev Upholds {α : Type} (good : Workspace → Prop) (n : Nat) (Q : Nat → α → Prop)
    (x : Run Workspace α) : Prop :=
  Run.Keeps good (fun w => w.store.frames.size) n Q x

variable {P : Nat → Value → Prop} {good : Workspace → Prop}

/-- As long as the macros stay what they are, only the store is looked at. -/
theorem Upkeep.onStore (up : Upkeep P good) (macros : MacroTable) :
    Store.Upkeep P fun s => good ⟨s, macros⟩ where
  toLasting := up.toLasting
  values started := up.values started
  change started change := up.change started (.store change)

/-- What a computation does to the store is done to the workspace, with the same macros. -/
theorem onStore_upholds {α : Type} {n : Nat} {Q : Nat → α → Prop} {x : Run Store α}
    (upholds : ∀ macros, Store.Upholds (fun s => good ⟨s, macros⟩) n Q x) :
    Upholds good n Q (onStore x) :=
  fun w started enough => upholds w.macros w.store started enough

end Workspace

section Expansion

open Value

variable {P : Nat → Value → Prop} {good : Workspace → Prop} (up : Workspace.Upkeep P good) {n : Nat}
  {e : FrameId}

include up

theorem onStore_evaluate_upholds (depth : Nat) {form : Value} (inside : e < n)
    (meets : form.Meets P n) :
    Workspace.Upholds good n (Meets P) (Workspace.onStore (evaluate depth e form)) :=
  Workspace.onStore_upholds fun macros => evaluate_upholds (up.onStore macros) depth inside meets

theorem onStore_apply_upholds (depth : Nat) {f : Value} {operands : List Value} (inside : e < n)
    (procedure : f.Meets P n) (meets : ∀ v ∈ operands, v.Meets P n) :
    Workspace.Upholds good n (Meets P) (Workspace.onStore (apply depth f operands e)) := by
  refine Workspace.onStore_upholds fun macros => ?_
  have kept := up.onStore macros
  exact Evaluator.apply_upholds kept (evaluate_upholds kept depth) inside procedure meets

mutual

/-- What builds a template holds the data of the template and the forms that were unquoted. -/
theorem Template.build_upholds {expand : Value → Run Workspace Value}
    (upholds : ∀ form : Value, form.Meets P n → Workspace.Upholds good n (Meets P) (expand form)) :
    ∀ template : Value, template.Meets P n →
      Workspace.Upholds good n (Meets P) (Template.build expand template)
  | .list items, meets =>
    Template.buildItems_upholds upholds items (allProcedures_list_iff.mp meets)
  | .int _, _ | .real _, _ | .bool _, _ | .marker _, _ | .text _, _ | .symbol _, _ | .nil, _ =>
    keeps_pure fun _ _ =>
      meets_headed (List.forall_mem_singleton.mpr (allProcedures_of_atom rfl rfl))
  | .closure .., meets | .builtin _, meets => by
    refine keeps_pure fun m grown => meets_headed (List.forall_mem_singleton.mpr ?_)
    exact up.meets grown meets

theorem Template.buildItems_upholds {expand : Value → Run Workspace Value}
    (upholds : ∀ form : Value, form.Meets P n → Workspace.Upholds good n (Meets P) (expand form)) :
    ∀ items : List Value, (∀ v ∈ items, v.Meets P n) →
      Workspace.Upholds good n (Meets P) (Template.buildItems expand items)
  | [], _ => keeps_pure fun _ _ =>
    meets_headed (List.forall_mem_singleton.mpr (allProcedures_list_iff.mpr nofun))
  | head :: rest, meets => by
    obtain ⟨headMeets, restMeets⟩ := List.forall_mem_cons.mp meets
    have pair : ∀ {m m' m'' : Nat} {b : Builtin} {left right : Value}, right.Meets P m → m ≤ m' →
        left.Meets P m' → m' ≤ m'' → (Template.call b left right).Meets P m'' := by
      intro m m' m'' b left right rightMeets grown leftMeets grown'
      refine meets_headed (List.forall_mem_cons.mpr ⟨up.meets grown' leftMeets, ?_⟩)
      exact List.forall_mem_singleton.mpr (up.meets (Nat.le_trans grown grown') rightMeets)
    unfold Template.buildItems
    split
    · split
      · exact upholds _ (restMeets _ List.mem_cons_self)
      · exact keeps_fail _
    · split
      · exact keeps_fail _
      · refine (Template.buildItems_upholds upholds rest restMeets).bind fun m tail grown built => ?_
        split
        · next operand splice =>
          rw [Template.spliceOperands?_eq_some_iff.mp splice] at headMeets
          have operandMeets := allProcedures_list_iff.mp headMeets operand (by simp)
          exact ((upholds operand operandMeets).later grown).bind fun _ _ grown' spliced =>
            keeps_pure fun _ grown'' => pair built grown' spliced grown''
        · exact keeps_fail _
        · exact ((Template.build_upholds upholds head headMeets).later grown).bind
            fun _ _ grown' element => keeps_pure fun _ grown'' => pair built grown' element grown''

end

namespace Expander

/-- What expansion leaves of a form, if anything, meets `P`. -/
def LeavesMeeting (P : Nat → Value → Prop) (n : Nat) (expanded : Option Value) : Prop :=
  ∀ f, expanded = some f → f.Meets P n

theorem LeavesMeeting.later {m m' : Nat} (expanded : Option Value) (grown : m ≤ m')
    (found : LeavesMeeting P m expanded) : LeavesMeeting P m' expanded :=
  fun f same => up.meets grown (found f same)

omit up in
theorem upholds_none : Workspace.Upholds good n (LeavesMeeting P) (pure none) := by
  refine keeps_pure fun m grown f same => ?_
  cases same

theorem upholds_some {f : Value} (meets : f.Meets P n) :
    Workspace.Upholds good n (LeavesMeeting P) (pure (some f)) := by
  refine keeps_pure fun m grown g same => ?_
  cases same
  exact up.meets grown meets

def Upholds (P : Nat → Value → Prop) (good : Workspace → Prop) (expand : Expander) (e : FrameId) :
    Prop :=
  ∀ ⦃n : Nat⦄ ⦃form : Value⦄, e < n → form.Meets P n →
    Workspace.Upholds good n (LeavesMeeting P) (expand form)

variable {expand : Expander} (upholds : expand.Upholds P good e) (inside : e < n)

include upholds inside

theorem required_upholds {form : Value} (meets : form.Meets P n) :
    Workspace.Upholds good n (Meets P) (expand.required form) := by
  refine (upholds inside meets).bind fun m expanded grown found => keeps_pure fun m' grown' => ?_
  cases expanded with
  | none => exact allProcedures_of_atom rfl rfl
  | some f => exact up.meets grown' (found f rfl)

theorem all_upholds {forms : List Value} (meets : ∀ v ∈ forms, v.Meets P n) :
    Workspace.Upholds good n (fun m fs => ∀ f ∈ fs, f.Meets P m) (expand.all forms) := by
  have each := keeps_each (fun _ _ => LeavesMeeting.later up) fun v member =>
    upholds inside (meets v member)
  refine each.bind fun m expanded grown found => keeps_pure fun m' grown' f member => ?_
  obtain ⟨result, member, same⟩ := List.mem_filterMap.mp member
  exact up.meets grown' (found result member f same)

theorem function_upholds {params : Value} {body : List Value} (paramsMeet : params.Meets P n)
    (meets : ∀ v ∈ body, v.Meets P n) :
    Workspace.Upholds good n (Meets P) (expand.function params body) := by
  refine Run.Keeps.bind (Q := fun _ _ => True) (keeps_ofExcept fun _ _ _ _ => trivial)
    fun m _ grown _ => ?_
  refine ((all_upholds up upholds inside meets).later grown).bind fun m' forms grown' found => ?_
  refine keeps_pure fun m'' grown'' => meets_headed (List.forall_mem_cons.mpr ⟨?_, ?_⟩)
  · exact up.meets (Nat.le_trans grown (Nat.le_trans grown' grown'')) paramsMeet
  · refine List.forall_mem_singleton.mpr ?_
    split
    · exact allProcedures_of_atom rfl rfl
    · exact up.meets grown'' (allProcedures_bodyForm found)

/-- A macro gets a procedure that was evaluated, so it meets the requirement. -/
theorem defineMacro_upholds (depth : Nat) {target procedure : Value} (meets : procedure.Meets P n) :
    Workspace.Upholds good n (fun _ _ => True) (expand.defineMacro depth e target procedure) := by
  unfold defineMacro
  split
  · next name =>
    split
    · exact keeps_fail _
    · refine (required_upholds up upholds inside meets).bind fun m expanded grown found => ?_
      have evaluates := onStore_evaluate_upholds up depth (Nat.lt_of_lt_of_le inside grown) found
      refine evaluates.bind fun m' value grown' procedure => ?_
      split
      · -- The table changes in the middle of an expansion that may yet fail.
        intro w started enough
        have defines : w.Change P { w with macros := w.macros.define name value } :=
          .define (up.meets enough procedure)
        exact ⟨up.change started defines, Nat.le_refl _, fun _ _ => trivial⟩
      · exact keeps_fail _
  · exact keeps_fail _

theorem special_upholds (depth : Nat) {kind : SpecialForm} {operands : List Value}
    (meets : ∀ v ∈ operands, v.Meets P n) :
    Workspace.Upholds good n (LeavesMeeting P) (expand.special depth e kind operands) := by
  have required : ∀ {form : Value}, form.Meets P n →
      Workspace.Upholds good n (Meets P) (expand.required form) :=
    required_upholds up upholds inside
  unfold special
  split
  · exact upholds_some up (meets_headed meets)
  · next test success failure =>
    refine (required (meets test (by simp))).bind fun m _ grown first => ?_
    refine ((required (meets success (by simp))).later grown).bind fun m' _ grown' second => ?_
    refine ((required (meets failure (by simp))).later (Nat.le_trans grown grown')).bind
      fun m'' _ grown'' third => ?_
    refine upholds_some up
      (meets_headed (List.forall_mem_cons.mpr ⟨?_, List.forall_mem_cons.mpr ⟨?_, ?_⟩⟩))
    · exact up.meets (Nat.le_trans grown' grown'') first
    · exact up.meets grown'' second
    · exact List.forall_mem_singleton.mpr third
  · next target value =>
    have binds : Workspace.Upholds good n (LeavesMeeting P) (do
        let value ← expand.required value
        pure (some (form .bind [target, value]))) := by
      refine (required (meets value (by simp))).bind fun m _ grown found => ?_
      have targetMeets := up.meets grown (meets target (by simp))
      exact upholds_some up (meets_headed
        (List.forall_mem_cons.mpr ⟨targetMeets, List.forall_mem_singleton.mpr found⟩))
    split
    · exact binds
    · exact binds
    · exact keeps_fail _
  · next params first more =>
    refine (function_upholds up upholds inside (meets params (by simp)) fun v member => ?_).bind
      fun m _ grown found => upholds_some up found
    exact meets v (List.mem_cons_of_mem _ member)
  · exact (all_upholds up upholds inside meets).bind fun m _ grown found =>
      upholds_some up (meets_headed found)
  · next target procedure =>
    exact (defineMacro_upholds up upholds inside depth (meets procedure (by simp))).bind
      fun m _ grown _ => upholds_none
  · next template =>
    have built := Template.build_upholds up (fun form => required) template
      (meets template (by simp))
    exact built.bind fun m _ grown found => upholds_some up found
  all_goals exact keeps_fail _

omit inside in
theorem step_upholds (depth : Nat) : (expand.step depth e).Upholds P good e := by
  intro n source inside meets
  have rebuilt : ∀ {items : List Value}, (∀ v ∈ items, v.Meets P n) →
      Workspace.Upholds good n (LeavesMeeting P) (do
        let forms ← expand.all items
        pure (some (.list forms))) := by
    intro items meets
    refine (all_upholds up upholds inside meets).bind fun m forms grown found => ?_
    exact upholds_some up (allProcedures_list_iff.mpr found)
  unfold step
  split
  · exact upholds_some up meets
  · next name operands =>
    have itemsMeet := allProcedures_list_iff.mp meets
    have operandsMeet : ∀ v ∈ operands, v.Meets P n := fun v member =>
      itemsMeet v (List.mem_cons_of_mem _ member)
    split
    · exact special_upholds up upholds inside depth operandsMeet
    · have reads : Workspace.Upholds good n (LeavesMeeting P)
          (Run.read fun w => w.macros.get? name) :=
        keeps_read fun w started f found =>
          up.macros started (name, f) (MacroTable.mem_of_get? found)
      refine reads.bind fun m expander grown found => ?_
      split
      · next f =>
        have present : e < m := Nat.lt_of_lt_of_le inside grown
        have applies := onStore_apply_upholds up depth present (found f rfl)
          (fun v member => up.meets grown (operandsMeet v member))
        refine applies.bind fun m' produced grown' meets => ?_
        exact upholds (Nat.lt_of_lt_of_le present grown') meets
      · exact (rebuilt itemsMeet).later grown
  · exact rebuilt (allProcedures_list_iff.mp meets)
  · exact upholds_some up meets

end Expander

/-- Wherever an expansion is given up, the workspace is good. -/
theorem expandUntil_upholds (stop : Value → Workspace → Bool) (e : FrameId) :
    ∀ depth, (expandUntil stop depth e).Upholds P good e
  | 0 => fun _ _ _ _ => keeps_exhaust
  | depth + 1 => by
    intro n form inside meets w started enough
    unfold expandUntil
    split
    · exact ⟨started, Nat.le_refl _, nofun⟩
    · exact Expander.step_upholds up (expandUntil_upholds stop e depth) depth inside meets w started
        enough

/-- By induction on the depth, expansion makes elementary changes only. -/
theorem expand_upholds (e : FrameId) (depth : Nat) : (expand depth e).Upholds P good e := by
  rw [← expandUntil_never]
  exact expandUntil_upholds up _ e depth

end Expansion

/-! ### Forms that are read -/

section Reading

open Value

variable {P : Value → Prop}

theorem Literal.allProcedures_atom? {cs : List Char} {v : Value} (given : Literal.atom? cs = some v) :
    v.AllProcedures P := by
  unfold Literal.atom? at given
  split at given
  · cases given
    exact allProcedures_of_atom rfl rfl
  split at given
  · cases given
    exact allProcedures_of_atom rfl rfl
  split_ifs at given
  · cases given
    exact allProcedures_of_atom rfl rfl
  · cases given
    exact allProcedures_of_atom rfl rfl
  · cases given
    exact allProcedures_of_atom rfl rfl
  · cases given
    exact allProcedures_of_atom rfl rfl

mutual

/-- What is read holds no procedure. -/
theorem Form.allProcedures {tokens : List Token} {v : Value} (form : Form tokens v) :
    v.AllProcedures P := by
  cases form with
  | literal value =>
    unfold Token.value? at value
    split at value
    · exact Literal.allProcedures_atom? value
    · cases value
      exact allProcedures_of_atom rfl rfl
    · cases value
  | quotation _ form =>
    refine allProcedures_list_iff.mpr (List.forall_mem_cons.mpr ⟨allProcedures_of_atom rfl rfl, ?_⟩)
    exact List.forall_mem_singleton.mpr form.allProcedures
  | list _ forms _ => exact allProcedures_list_iff.mpr forms.allProcedures

theorem Forms.allProcedures {tokens : List Token} {vs : List Value} (forms : Forms tokens vs) :
    ∀ v ∈ vs, v.AllProcedures P := by
  cases forms with
  | nil => exact nofun
  | cons form forms => exact List.forall_mem_cons.mpr ⟨form.allProcedures, forms.allProcedures⟩

end

/-- No procedure occurs in what is read from a text. -/
theorem allProcedures_of_read {source : List Char} {v : Value} (result : read source = .ok v) :
    v.AllProcedures P := by
  have ran : (Scanner.ofSource source).readForm = (.ok v, _) := Prod.ext result rfl
  obtain ⟨tokens, -, form⟩ := Scanner.readForm_eq_ok_iff.mp ran
  exact form.allProcedures

end Reading

/-! ### Sessions -/

namespace Session

open Value

variable {P : Nat → Value → Prop} {good : Workspace → Prop} (up : Workspace.Upkeep P good)

include up

/-- Carrying out a form makes elementary changes only. -/
theorem carryOut_upholds {n : Nat} {e : FrameId} {form : Value} (inside : e < n)
    (meets : form.Meets P n) :
    Workspace.Upholds good n (Expander.LeavesMeeting P) (carryOut e form) := by
  refine (expand_upholds up e depth inside meets).bind fun m expanded grown found => ?_
  split
  · exact Expander.upholds_none
  · next f =>
    have evaluates := onStore_evaluate_upholds up depth (Nat.lt_of_lt_of_le inside grown)
      (found f rfl)
    exact evaluates.bind fun m' v grown' value => Expander.upholds_some up value

variable {session : Session} (started : good session.workspace)
  (present : session.root < session.workspace.store.frames.size)

include started present

/-- From a good workspace with the root frame a line leads to such a workspace, and a value that it
gives meets the requirement. -/
theorem line_upheld (source : String) :
    good (session.line source).2.workspace ∧
      (session.line source).2.root < (session.line source).2.workspace.store.frames.size ∧
      ∀ v, (session.line source).1 = .value v →
        v.Meets P (session.line source).2.workspace.store.frames.size := by
  obtain ⟨workspace, root⟩ := session
  cases result : read source.toList with
  | error cause =>
    simp only [line, result]
    exact ⟨started, present, by simp⟩
  | ok form =>
    obtain ⟨kept, grown, holds⟩ := carryOut_upholds up present (allProcedures_of_read result)
      workspace started (Nat.le_refl _)
    rcases ran : carryOut root form workspace with ⟨outcome, later⟩
    rw [ran] at kept grown holds
    simp only [line, result, ran]
    refine ⟨kept, Nat.lt_of_lt_of_le present grown, fun v given => ?_⟩
    rcases outcome with (_ | w) | cause | _
    · cases given
    · cases given
      exact holds (some v) rfl v rfl
    · cases given
    · cases given

/-- What survives each change survives all lines. -/
theorem after_upheld (lines : List String) :
    good (session.after lines).workspace ∧
      (session.after lines).root < (session.after lines).workspace.store.frames.size := by
  induction lines generalizing session with
  | nil => exact ⟨started, present⟩
  | cons source lines ih =>
    obtain ⟨kept, still, -⟩ := line_upheld up started present source
    exact ih kept still

end Session

end SmallLisp
