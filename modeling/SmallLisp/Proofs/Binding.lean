import SmallLisp.Proofs.Depth
import SmallLisp.Proofs.Visibility

/-!
What `bind` does to the names that a frame sees.

The name is checked twice. Before its value is evaluated it must have no value as seen from the
frame; afterwards it is looked for in the frame alone. The second check is enough, because what
happens while the value is evaluated can bind the name in no frame further up
(`Store.Rooted.isBound_iff_binds`). So a binding is made only where the name is unbound all the way
to the root, and it hides nothing (`bind_never_shadows`).
-/

namespace SmallLisp

open Run

namespace Store

variable {e own i : FrameId} {s t : Store} {name : String}

/-! ### The frames above a frame -/

/-- The frame `i` is the frame `e`, its parent, its parent's parent, or further up. -/
inductive Above (s : Store) (i : FrameId) : FrameId → Prop
  | here {frame : Frame} : s.frames[i]? = some frame → Above s i i
  | parent {e parent : FrameId} {frame : Frame} : s.frames[e]? = some frame →
      frame.parent = some parent → Above s i parent → Above s i e

/-- The way up from a frame ends at a root, and every parent on it is older than its child. -/
inductive Rooted (s : Store) : FrameId → Prop
  | root {e : FrameId} {frame : Frame} : s.frames[e]? = some frame → frame.parent = none → Rooted s e
  | child {e parent : FrameId} {frame : Frame} : s.frames[e]? = some frame →
      frame.parent = some parent → parent < e → Rooted s parent → Rooted s e

theorem Rooted.frame (rooted : s.Rooted e) : ∃ frame, s.frames[e]? = some frame := by
  cases rooted with
  | root found => exact ⟨_, found⟩
  | child found => exact ⟨_, found⟩

/-- A parent is older than its child, and its way up ends at a root too. -/
theorem Rooted.parent (rooted : s.Rooted e) {frame : Frame} {parent : FrameId}
    (found : s.frames[e]? = some frame) (higher : frame.parent = some parent) :
    parent < e ∧ s.Rooted parent := by
  cases rooted with
  | root found' top =>
    cases found.symm.trans found'
    cases higher.symm.trans top
  | child found' higher' older above =>
    cases found.symm.trans found'
    cases higher.symm.trans higher'
    exact ⟨older, above⟩

/-- All frames on the way up are above the frame. -/
theorem above_of_mem_ancestryUpTo :
    ∀ {count : Nat} {e : FrameId}, i ∈ s.ancestryUpTo count e → s.Above i e
  | count + 1, e, member => by
    unfold ancestryUpTo at member
    split at member
    · cases member
    · next frame found =>
      rcases List.mem_cons.mp member with rfl | above
      · exact .here found
      · split at above
        · cases above
        · next parent higher => exact .parent found higher (above_of_mem_ancestryUpTo above)

/-- Every frame above is reached, since each step leads to a smaller number. -/
theorem Rooted.mem_ancestryUpTo (rooted : s.Rooted e) (above : s.Above i e) :
    ∀ {count : Nat}, e < count → i ∈ s.ancestryUpTo count e := by
  induction above with
  | here found =>
    intro count enough
    cases count with
    | zero => cases enough
    | succ count =>
      rw [ancestryUpTo, found]
      exact List.mem_cons_self
  | @parent e parent frame found higher above ih =>
    intro count enough
    -- The parent is older than `e`, so one step less is still enough for it.
    obtain ⟨older, rooted⟩ := rooted.parent found higher
    cases count with
    | zero => cases enough
    | succ count =>
      simp only [ancestryUpTo, found, higher]
      exact List.mem_cons_of_mem _ (ih rooted (Nat.lt_of_lt_of_le older (Nat.le_of_lt_succ enough)))

/-- From a rooted frame, `Store.ancestry` goes all the way up. -/
theorem Rooted.mem_ancestry_iff (rooted : s.Rooted e) : i ∈ s.ancestry e ↔ s.Above i e := by
  constructor
  · exact above_of_mem_ancestryUpTo
  · intro above
    exact rooted.mem_ancestryUpTo above (Nat.lt_succ_self e)

/-- A name has a value exactly if some frame on the way up binds it. -/
theorem isBound_iff : s.isBound e name = true ↔ ∃ i ∈ s.ancestry e, s.binds i name = true := by
  simp only [isBound, lookup?, List.findSome?_isSome_iff, binds]

/-- A name has no value as seen from a rooted frame exactly if no frame on the way up binds it. -/
theorem Rooted.isBound_eq_false_iff (rooted : s.Rooted e) :
    s.isBound e name = false ↔ ∀ i, s.Above i e → s.binds i name = false := by
  rw [← Bool.not_eq_true, isBound_iff]
  constructor
  · intro unbound i above
    refine Bool.eq_false_iff.mpr fun binds => ?_
    exact unbound ⟨i, rooted.mem_ancestry_iff.mpr above, binds⟩
  · rintro unbound ⟨i, member, binds⟩
    rw [unbound i (rooted.mem_ancestry_iff.mp member)] at binds
    cases binds

/-! ### The way up while the store grows -/

/-- The frames of `s` are there in `t`, with the same parents. -/
def KeepsParents (s t : Store) : Prop :=
  ∀ (i : FrameId) (frame : Frame), s.frames[i]? = some frame →
    ∃ later, t.frames[i]? = some later ∧ later.parent = frame.parent

/-- Growing adds bindings and frames, and moves no frame to another parent. -/
theorem Grows.keepsParents (grows : Grows own s t) : KeepsParents s t := by
  intro i frame found
  obtain ⟨later, foundLater, extends_⟩ := grows.frame found
  exact ⟨later, foundLater, extends_.parent⟩

/-- The way up from a frame stays as it is as long as parents do. -/
theorem Rooted.of_keepsParents (rooted : s.Rooted e) (keeps : KeepsParents s t) : t.Rooted e := by
  induction rooted with
  | root found top =>
    obtain ⟨later, foundLater, same⟩ := keeps _ _ found
    exact .root foundLater (same.trans top)
  | child found higher older _ ih =>
    obtain ⟨later, foundLater, same⟩ := keeps _ _ found
    exact .child foundLater (same.trans higher) older ih

theorem Rooted.of_grows (rooted : s.Rooted e) (grows : Grows own s t) : t.Rooted e :=
  rooted.of_keepsParents grows.keepsParents

/-- New frames come below old ones, so the way up from a frame stays what it is. -/
theorem Rooted.ancestryUpTo_eq (rooted : s.Rooted e) (keeps : KeepsParents s t) :
    ∀ count, t.ancestryUpTo count e = s.ancestryUpTo count e := by
  induction rooted with
  | root found top =>
    obtain ⟨later, foundLater, same⟩ := keeps _ _ found
    rintro (_ | count)
    · rfl
    · simp only [ancestryUpTo, found, foundLater, same, top]
  | child found higher _ _ ih =>
    obtain ⟨later, foundLater, same⟩ := keeps _ _ found
    rintro (_ | count)
    · rfl
    · simp only [ancestryUpTo, found, foundLater, same, higher, ih]

theorem Rooted.ancestry_eq (rooted : s.Rooted e) (keeps : KeepsParents s t) :
    t.ancestry e = s.ancestry e :=
  rooted.ancestryUpTo_eq keeps (e + 1)

/-- While a form is evaluated in a frame, a name that the frame did not see can become visible in the
frame itself only. -/
theorem Rooted.isBound_iff_binds (rooted : s.Rooted e) (grows : Grows e s t)
    (unbound : s.isBound e name = false) : t.isBound e name = true ↔ t.binds e name = true := by
  have sameWay : t.ancestry e = s.ancestry e := rooted.ancestry_eq grows.keepsParents
  rw [isBound_iff, sameWay]
  constructor
  · rintro ⟨i, member, binds⟩
    by_cases own : i = e
    · rwa [own] at binds
    · -- Further up, the frames are still those in which the name was not found.
      rw [Store.binds, frameFind?,
        grows.others i (lt_size_of_mem_ancestryUpTo member) own] at binds
      have bound : s.isBound e name = true := isBound_iff.mpr ⟨i, member, binds⟩
      rw [unbound] at bound
      cases bound
  · intro binds
    obtain ⟨frame, found⟩ := rooted.frame
    exact ⟨e, rooted.mem_ancestry_iff.mpr (.here found), binds⟩

/-! ### Lookup after an insertion -/

theorem ancestryUpTo_insert (v : Value) (count : Nat) (i : FrameId) :
    (s.insert e name v).ancestryUpTo count i = s.ancestryUpTo count i := by
  refine ancestryUpTo_congr (fun j => ?_) count i
  rw [frame_insert, Option.map_map]
  refine Option.map_congr fun frame _ => ?_
  simp only [Function.comp_apply]
  split
  · rfl
  · rfl

/-- A new binding changes nothing for other names. -/
theorem lookup?_insert_of_ne {other : String} (differ : other ≠ name) (v : Value) (i : FrameId) :
    (s.insert e name v).lookup? i other = s.lookup? i other := by
  have sameFinds : (s.insert e name v).frameFind? other = s.frameFind? other := by
    funext i
    exact frameFind?_insert_of_ne differ v i
  rw [lookup?, lookup?, ancestry, ancestryUpTo_insert, sameFinds, ancestry]

/-- A new binding is seen from its frame, whatever is bound further up. -/
theorem lookup?_insert_self {frame : Frame} (found : s.frames[e]? = some frame) (v : Value) :
    (s.insert e name v).lookup? e name = some v := by
  simp [lookup?, ancestry, ancestryUpTo, frameFind?, frame_insert, found, Frame.find?]

end Store

/-! ### The steps of a `bind` form -/

namespace Evaluator

variable {eval : Evaluator} {e : FrameId} {target form v : Value} {name : String} {s u w : Store}

section Named

variable (named : eval.bindingName e target s = (.value name, u))

include named

/-- If the name has a value already, the form of the value is not evaluated. -/
theorem bind_of_bound (bound : u.isBound e name = true) (form : Value) :
    eval.bind e target form s = (.fault .alreadyBound, u) := by
  simp [bind, bind_apply, named, requireUnbound, bound]

/-- The frame is asked a second time behind the value, which may have bound the name itself. -/
theorem bind_of_value (unbound : u.isBound e name = false)
    (ran : eval e form u = (.value v, w)) :
    eval.bind e target form s =
      if w.binds e name then (.fault .alreadyBound, w) else (.value v, w.insert e name v) := by
  simp only [bind, bind_apply, named, requireUnbound, unbound, Bool.false_eq_true, if_false, ran,
    bindName]
  cases w.binds e name <;> rfl

end Named

/-- A binding that succeeds has found the name free both times. -/
theorem bind_eq_value_inv {t : Store} (ran : eval.bind e target form s = (.value v, t)) :
    ∃ name u w, eval.bindingName e target s = (.value name, u) ∧ u.isBound e name = false ∧
      eval e form u = (.value v, w) ∧ w.binds e name = false ∧ t = w.insert e name v := by
  obtain ⟨name, u, named, ran⟩ := bind_eq_value_iff.mp ran
  obtain ⟨_, u', required, ran⟩ := bind_eq_value_iff.mp ran
  obtain ⟨v', w, evaluated, ran⟩ := bind_eq_value_iff.mp ran
  obtain ⟨_, t', bound, last⟩ := bind_eq_value_iff.mp ran
  cases last
  unfold requireUnbound at required
  split at required
  · cases required
  · next unbound =>
    cases required
    unfold bindName at bound
    split at bound
    · cases bound
    · next absent =>
      cases bound
      exact ⟨name, u, w, named, by simpa using unbound, evaluated, by simpa using absent, rfl⟩

end Evaluator

/-! ### What a `bind` form comes to -/

/-- The form that binds what `target` names to the value of `form`. -/
def bindForm (target form : Value) : Value :=
  .list [.symbol SpecialForm.bind.name, target, form]

/-- The first operand of a `bind` form, resolved in the frame `e` of the store `s`, gives `name` and
leaves the store `t`. -/
def Names (e : FrameId) (target : Value) (s : Store) (name : String) (t : Store) : Prop :=
  ∃ depth, (evaluate depth).bindingName e target s = (.value name, t)

variable {e : FrameId} {target form v : Value} {name : String} {s t u w : Store}

theorem bindingName_deeper {depth deeper : Nat} (less : depth ≤ deeper)
    (named : (evaluate depth).bindingName e target s = (.value name, t)) :
    (evaluate deeper).bindingName e target s = (.value name, t) := by
  obtain ⟨resolved, u, ran, given⟩ := bind_eq_value_iff.mp named
  refine bind_eq_value_iff.mpr ⟨resolved, u, ?_, given⟩
  cases target with
  | list => exact evaluate_deeper less ran nofun
  | _ => exact ran

/-- Finding the name may run code, which only adds to the store. -/
theorem Names.grows (named : Names e target s name t) : Store.Grows e s t := by
  obtain ⟨depth, ran⟩ := named
  have moved := Evaluator.bindingName_moves (evaluate_confined depth) e target s
  rwa [ran] at moved

theorem Yields.grows (yields : Yields e form s v t) : Store.Grows e s t := by
  obtain ⟨depth, ran⟩ := yields
  have moved := evaluate_confined depth e form s
  rwa [ran] at moved

theorem evaluate_bindForm (depth : Nat) :
    evaluate (depth + 1) e (bindForm target form) = (evaluate depth).bind e target form :=
  Evaluator.list_special _ e .bind [target, form]

theorem concludes_bindForm {depth : Nat} {o : Outcome Value} (ended : o ≠ .exhausted)
    (ran : (evaluate depth).bind e target form s = (o, t)) :
    Concludes e (bindForm target form) s o t :=
  ⟨ended, depth + 1, by rw [evaluate_bindForm, ran]⟩

/-- The operands of a `bind` form give what they give at some depth they share. -/
theorem Names.share (named : Names e target s name u) (yields : Yields e form u v w) :
    ∃ depth, (evaluate depth).bindingName e target s = (.value name, u) ∧
      evaluate depth e form u = (.value v, w) := by
  obtain ⟨depth, named⟩ := named
  obtain ⟨depth', ran⟩ := yields
  exact ⟨max depth depth', bindingName_deeper (Nat.le_max_left depth depth') named,
    evaluate_deeper (Nat.le_max_right depth depth') ran nofun⟩

/-- A `bind` form that gives a value has bound a name that no frame on the way up bound. -/
theorem yields_bindForm_inv (rooted : s.Rooted e) (yields : Yields e (bindForm target form) s v t) :
    ∃ name u w, Names e target s name u ∧ Yields e form u v w ∧
      (∀ i, w.Above i e → w.binds i name = false) ∧ t = w.insert e name v := by
  obtain ⟨_ | depth, ran⟩ := yields
  · cases ran
  · rw [evaluate_bindForm] at ran
    obtain ⟨name, u, w, named, unbound, evaluated, absent, rfl⟩ := Evaluator.bind_eq_value_inv ran
    have names : Names e target s name u := ⟨depth, named⟩
    have value : Yields e form u v w := ⟨depth, evaluated⟩
    have rootedThen := rooted.of_grows names.grows
    have stillUnbound : w.isBound e name = false := by
      rwa [← Bool.not_eq_true, rootedThen.isBound_iff_binds value.grows unbound, Bool.not_eq_true]
    refine ⟨name, u, w, names, value, ?_, rfl⟩
    exact (rootedThen.of_grows value.grows).isBound_eq_false_iff.mp stillUnbound

/-- `bind` neither shadows nor overwrites. Where it gives a value, the name is unbound in the frame
and in all frames above it at the moment of the binding, and afterwards the frame sees the value
under that name and all other names as before. A name that is visible once it is resolved makes
`bind` fail right there, whatever the value form is, and a name that becomes visible while the value
is evaluated makes it fail with the store as the value form left it. In all other cases the name is
bound. -/
theorem bind_never_shadows {e : FrameId} {s : Store} (rooted : s.Rooted e) (target form : Value) :
    Fault.alreadyBound.code = "EVAL011" ∧
    (∀ v t, Yields e (bindForm target form) s v t →
      ∃ name u w, Names e target s name u ∧ Yields e form u v w ∧
        (∀ i, w.Above i e → w.binds i name = false) ∧ t = w.insert e name v ∧
        t.lookup? e name = some v ∧ ∀ other, other ≠ name → t.lookup? e other = w.lookup? e other) ∧
    ∀ name u, Names e target s name u →
      (u.isBound e name = true →
        Concludes e (bindForm target form) s (.fault .alreadyBound) u) ∧
      (u.isBound e name = false → ∀ v w, Yields e form u v w →
        (∀ earlier, w.lookup? e name = some earlier →
          Concludes e (bindForm target form) s (.fault .alreadyBound) w) ∧
        (w.lookup? e name = none →
          Concludes e (bindForm target form) s (.value v) (w.insert e name v))) := by
  refine ⟨rfl, fun v t yields => ?_, fun name u names =>
    ⟨fun bound => ?_, fun unbound v w value => ?_⟩⟩
  · obtain ⟨name, u, w, names, value, absent, rfl⟩ := yields_bindForm_inv rooted yields
    obtain ⟨frame, found⟩ := ((rooted.of_grows names.grows).of_grows value.grows).frame
    refine ⟨name, u, w, names, value, absent, rfl, Store.lookup?_insert_self found v, ?_⟩
    exact fun other differ => Store.lookup?_insert_of_ne differ v e
  · obtain ⟨depth, named⟩ := names
    exact concludes_bindForm (by simp) (Evaluator.bind_of_bound named bound form)
  · have onlyOwn := (rooted.of_grows names.grows).isBound_iff_binds value.grows unbound
    obtain ⟨depth, named, ran⟩ := names.share value
    have bound := Evaluator.bind_of_value named unbound ran
    constructor
    · intro earlier visible
      rw [if_pos (onlyOwn.mp (by simp [Store.isBound, visible]))] at bound
      exact concludes_bindForm (by simp) bound
    · intro invisible
      have absent : ¬w.binds e name = true := by
        rw [← onlyOwn]
        simp [Store.isBound, invisible]
      rw [if_neg absent] at bound
      exact concludes_bindForm (by simp) bound

/-- A value form that binds the name itself makes the outer `bind` fail, and its own binding stays. -/
theorem bind_never_shadows_inner_binding :
    let s := (Store.empty.addRoot []).addChild 0
    let inner := Value.list
      [.symbol SpecialForm.sequence.name, bindForm (.symbol "x") (.int 1), .int 2]
    let w := s.insert 1 "x" (.int 1)
    s.Rooted 1 ∧ Names 1 (.symbol "x") s "x" s ∧ s.isBound 1 "x" = false ∧
      Yields 1 inner s (.int 2) w ∧ w.lookup? 1 "x" = some (.int 1) ∧
      Concludes 1 (bindForm (.symbol "x") inner) s (.fault .alreadyBound) w := by
  have rooted : ((Store.empty.addRoot []).addChild 0).Rooted 1 :=
    .child rfl rfl (by decide) (.root rfl rfl)
  have names : Names 1 (.symbol "x") ((Store.empty.addRoot []).addChild 0) "x" _ := ⟨0, rfl⟩
  refine ⟨rooted, names, rfl, ⟨3, rfl⟩, rfl, ?_⟩
  exact (((bind_never_shadows rooted (.symbol "x") _).2.2 _ _ names).2 rfl _ _ ⟨3, rfl⟩).1 _ rfl

end SmallLisp
