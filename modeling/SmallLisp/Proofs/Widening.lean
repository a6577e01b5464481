import SmallLisp.Proofs.Depth
import SmallLisp.Proofs.Occurrence

/-!
A further definition in a root frame.

Two evaluations of the same form are compared, the second in a store in which a root frame binds one
more name. As long as both go on they see the same: a name that is found at all is found in the same
frame, because a root frame is the last in which a name is looked for, and the new name was not
found there. They part only where a program is about to bind the name itself. The one procedure that
tells a bound name from an unbound one without failing is `bound?`; where it cannot be reached, a
further definition changes no result (`root_definition_conservative`).
-/

namespace SmallLisp

/-! ### Values without a built-in procedure -/

namespace Value

mutual

/-- The built-in procedure occurs nowhere in the value, neither in lists nor in closure bodies. -/
def lacks (b : Builtin) : Value → Bool
  | .builtin other => other != b
  | .list items => allLack b items
  | .closure _ _ body _ => lacks b body
  | _ => true

def allLack (b : Builtin) : List Value → Bool
  | [] => true
  | v :: vs => lacks b v && allLack b vs

end

variable {b : Builtin}

mutual

/-- Looking for a built-in procedure comes to asking all procedures in the value. -/
theorem lacks_iff : ∀ v : Value, v.lacks b = true ↔ v.AllProcedures (· ≠ builtin b)
  | .builtin other => by simp [lacks, allProcedures_builtin_iff]
  | .list items => by rw [lacks, allLack_iff items, allProcedures_list_iff]
  | .closure _ _ body _ => by
    rw [lacks, lacks_iff body, allProcedures_closure_iff]
    exact ⟨fun inner => ⟨nofun, inner⟩, And.right⟩
  | .int _ | .real _ | .bool _ | .marker _ | .text _ | .symbol _ | .nil =>
    iff_of_true rfl (allProcedures_of_atom rfl rfl)

theorem allLack_iff : ∀ vs : List Value,
    allLack b vs = true ↔ ∀ v ∈ vs, v.AllProcedures (· ≠ builtin b)
  | [] => by simp [allLack]
  | v :: vs => by
    rw [allLack, Bool.and_eq_true, lacks_iff v, allLack_iff vs, List.forall_mem_cons]

end

theorem lacks_list_iff {items : List Value} :
    (list items).lacks b = true ↔ ∀ v ∈ items, v.lacks b = true := by
  rw [lacks, allLack_iff]
  exact forall₂_congr fun v _ => (lacks_iff v).symm

theorem lacks_bodyForm {forms : List Value} (lack : ∀ v ∈ forms, v.lacks b = true) :
    (bodyForm forms).lacks b = true :=
  (lacks_iff _).mpr (allProcedures_bodyForm fun v member => (lacks_iff v).mp (lack v member))

end Value

/-- No call brings in a built-in procedure that its operands lack. -/
theorem Builtin.lacks_call {b other : Builtin} {operands : List Value} {e : FrameId} {s t : Store}
    {w : Value} (lack : ∀ v ∈ operands, v.lacks b = true)
    (called : other.call operands e s = (.value w, t)) : w.lacks b = true :=
  (Value.lacks_iff w).mpr
    (allProcedures_call (fun v member => (Value.lacks_iff v).mp (lack v member)) called)

/-! ### Stores with one more binding in a root frame -/

/-- The frame `g` is the root frame `f` with one more binding somewhere in its row, for a name that
`f` does not bind. -/
structure Frame.Widened (name : String) (v : Value) (f g : Frame) : Prop where
  root : f.parent = none
  unbound : f.find? name = none
  bindings : ∃ newer older, f.bindings = newer ++ older ∧ g.bindings = newer ++ (name, v) :: older
  parent : g.parent = f.parent
  registered : g.registered = f.registered

namespace Frame.Widened

variable {name other : String} {v : Value} {f g : Frame}

/-- The added binding changes nothing for other names. -/
theorem find?_of_ne (widened : f.Widened name v g) (differ : other ≠ name) :
    g.find? other = f.find? other := by
  obtain ⟨newer, older, left, right⟩ := widened.bindings
  simp [Frame.find?, left, right, List.lookup_append, List.lookup_cons, beq_false_of_ne differ]

theorem find? (widened : f.Widened name v g) : (g.find? name).isSome = true := by
  obtain ⟨newer, older, left, right⟩ := widened.bindings
  simp [Frame.find?, right, List.lookup_append]

theorem cons (widened : f.Widened name v g) (differ : other ≠ name) (w : Value) :
    Frame.Widened name v { f with bindings := (other, w) :: f.bindings }
      { g with bindings := (other, w) :: g.bindings } where
  root := widened.root
  unbound := by
    have unbound := widened.unbound
    simpa [Frame.find?, List.lookup_cons, beq_false_of_ne differ.symm] using unbound
  bindings := by
    obtain ⟨newer, older, left, right⟩ := widened.bindings
    exact ⟨(other, w) :: newer, older, by rw [left]; rfl, by rw [right]; rfl⟩
  parent := widened.parent
  registered := widened.registered

end Frame.Widened

/-- The store `t` is `s` with one more binding in the frame `root`. What has been emitted may
differ, since the names of the root frame can be listed. -/
structure Store.Widened (root : FrameId) (name : String) (v : Value) (s t : Store) : Prop where
  size : t.frames.size = s.frames.size
  others : ∀ i, i ≠ root → t.frames[i]? = s.frames[i]?
  widened : ∃ f g, s.frames[root]? = some f ∧ t.frames[root]? = some g ∧ f.Widened name v g
  stamps : t.stamps = s.stamps

namespace Store.Widened

variable {root : FrameId} {name : String} {v : Value} {s t : Store}

/-- Binding a free name in a root frame widens the store. -/
theorem of_insert {f : Frame} (frame : s.frames[root]? = some f) (top : f.parent = none)
    (unbound : f.find? name = none) : s.Widened root name v (s.insert root name v) where
  size := by simp [insert]
  others i differ := by
    rw [frame_insert]
    simp [differ.symm]
  widened := by
    refine ⟨f, { f with bindings := (name, v) :: f.bindings }, frame, ?_, ?_⟩
    · rw [frame_insert, frame]
      simp
    · exact ⟨top, unbound, ⟨[], f.bindings, rfl, rfl⟩, rfl, rfl⟩
  stamps := rfl

/-- Whoever finds a name finds the same in the wider store. -/
theorem findSome?_ancestryUpTo (widened : s.Widened root name v t) {other : String} {w : Value} :
    ∀ {count : Nat} {e : FrameId},
      (s.ancestryUpTo count e).findSome? (s.frameFind? other) = some w →
        (t.ancestryUpTo count e).findSome? (t.frameFind? other) = some w
  | 0, _, found => by cases found
  | count + 1, e, found => by
    obtain ⟨f, g, left, right, frames⟩ := widened.widened
    by_cases here : e = root
    · subst here
      have top : g.parent = none := frames.parent.trans frames.root
      simp only [ancestryUpTo, left, frames.root, List.findSome?_cons, frameFind?,
        Option.bind_some] at found
      simp only [ancestryUpTo, right, top, List.findSome?_cons, frameFind?, Option.bind_some]
      by_cases same : other = name
      · rw [same, frames.unbound] at found
        cases found
      · rw [frames.find?_of_ne same]
        exact found
    · have frame := widened.others e here
      have finds : t.frameFind? other e = s.frameFind? other e := by
        rw [frameFind?, frameFind?, frame]
      unfold ancestryUpTo at found ⊢
      rw [frame]
      cases present : s.frames[e]? with
      | none =>
        rw [present] at found
        cases found
      | some frame =>
        simp only [present, List.findSome?_cons] at found ⊢
        rw [finds]
        cases value : s.frameFind? other e with
        | some u => simpa [value] using found
        | none =>
          simp only [value] at found ⊢
          cases above : frame.parent with
          | none => simp [above] at found
          | some parent =>
            simp only [above] at found ⊢
            exact findSome?_ancestryUpTo widened found

/-- Whatever has a value in the narrower store has the same in the wider one. -/
theorem lookup? (widened : s.Widened root name v t) {e : FrameId} {other : String} {w : Value}
    (found : s.lookup? e other = some w) : t.lookup? e other = some w :=
  widened.findSome?_ancestryUpTo found

/-- The same new binding on both sides leaves one store wider by the same name. -/
theorem insert (widened : s.Widened root name v t) {e : FrameId} {other : String}
    (absent : t.binds e other = false) (w : Value) :
    (s.insert e other w).Widened root name v (t.insert e other w) where
  size := by simp [Store.insert, widened.size]
  others i differ := by rw [frame_insert, frame_insert, widened.others i differ]
  widened := by
    obtain ⟨f, g, left, right, frames⟩ := widened.widened
    by_cases here : e = root
    · subst here
      have differ : other ≠ name := by
        rintro rfl
        simp [binds, frameFind?, right, frames.find?] at absent
      refine ⟨_, _, by rw [frame_insert, left]; rfl, by rw [frame_insert, right]; rfl, ?_⟩
      simpa using frames.cons differ w
    · refine ⟨f, g, ?_, ?_, frames⟩
      · rw [frame_insert, left]
        simp [here]
      · rw [frame_insert, right]
        simp [here]
  stamps := widened.stamps

theorem addChild (widened : s.Widened root name v t) (parent : FrameId) :
    (s.addChild parent).Widened root name v (t.addChild parent) where
  size := by simp [Store.addChild, widened.size]
  others i differ := by
    simp only [Store.addChild, Array.getElem?_push, widened.size, widened.others i differ]
  widened := by
    obtain ⟨f, g, left, right, frames⟩ := widened.widened
    have inside : root ≠ s.frames.size := by
      rintro rfl
      simp at left
    refine ⟨f, g, ?_, ?_, frames⟩
    · simpa [Store.addChild, Array.getElem?_push, inside] using left
    · simpa [Store.addChild, Array.getElem?_push, inside, widened.size] using right
  stamps := widened.stamps

end Store.Widened

/-! ### Stores without a built-in procedure -/

/-- The built-in procedure occurs in no value that a frame binds. -/
def Store.Lacks (b : Builtin) (s : Store) : Prop :=
  ∀ (i : FrameId) (frame : Frame), s.frames[i]? = some frame →
    ∀ binding ∈ frame.bindings, binding.2.lacks b = true

theorem Store.Lacks.allValues {b : Builtin} {s : Store} (lacks : s.Lacks b) :
    s.AllValues fun v => v.lacks b = true :=
  lacks

/-! ### Evaluation in the wider store -/

namespace Correspondence

open Comparison

/-- Compares evaluations of the same form without `bound?` on a store and on a wider one. The first
may fail in any way, the second only by finding a name bound. -/
def widening (root : FrameId) (name : String) (v : Value) : Correspondence where
  states s t := s.Widened root name v t ∧ s.Lacks .isBound
  faults := Eq
  leftEscapes _ := True
  rightEscapes ending := ending = some .alreadyBound
  values := Agree fun w => w.lacks .isBound = true
  forms := Agree fun p => p.lacks .isBound = true

variable {root : FrameId} {name : String} {v : Value}

theorem widening_selfsame :
    (widening root name v).Selfsame fun p => p.lacks .isBound = true where
  values _ lacks := ⟨rfl, lacks⟩
  forms _ lacks := ⟨rfl, lacks⟩
  faults _ := rfl
  items _ lacks := Value.lacks_list_iff.mp lacks
  body _ lack := Value.lacks_bodyForm lack

/-- Only `bound?` can tell that a name has been added. -/
theorem widening_call {b : Builtin} (other : b ≠ .isBound) {operands : List Value}
    (lack : ∀ w ∈ operands, w.lacks .isBound = true) (e : FrameId) :
    (widening root name v).Related (widening root name v).values (b.call operands e)
      (b.call operands e) := by
  have gives : ∀ r : Except Fault Value, b.call operands e = .ofExcept r →
      (widening root name v).Related (widening root name v).values (.ofExcept r) (.ofExcept r) := by
    rintro (cause | w) called
    · exact related_fail rfl
    · exact related_pure ⟨rfl, Builtin.lacks_call lack (congrFun called Store.empty)⟩
  have plain : ∀ w : Value, w.lacks .isBound = true →
      (widening root name v).Related (widening root name v).values (pure w) (pure w) :=
    fun w lacks => related_pure ⟨rfl, lacks⟩
  have emits : ∀ line : Store → String,
      (widening root name v).Related (widening root name v).values
        (Run.update (fun s => s.emit (line s)) >>= fun _ => pure .nil)
        (Run.update (fun s => s.emit (line s)) >>= fun _ => pure .nil) := by
    intro line
    refine (related_update fun s t states => ?_).bind fun _ _ _ => plain .nil rfl
    obtain ⟨⟨size, others, root, stamps⟩, lacks⟩ := states
    exact ⟨⟨size, others, root, stamps⟩, lacks⟩
  cases b with
  | isBound => exact absurd rfl other
  | newline => exact emits fun _ => ""
  | globals => exact emits fun s => s.rootLine e
  | list => exact plain _ (Value.lacks_list_iff.mpr lack)
  | equal | isBoolean | isInteger | isReal | isText | isSymbol => exact plain _ rfl
  | _ => exact gives _ rfl

/-- The wider store differs only where a name is found that had none. -/
theorem widening_lawful : (widening root name v).Lawful where
  find e other s t states := by
    obtain ⟨widened, lacks⟩ := states
    unfold find
    cases found : s.lookup? e other with
    | none => exact .leftFault trivial
    | some w =>
      rw [widened.lookup? found]
      exact .value ⟨rfl, lacks.allValues.lookup? found⟩ ⟨widened, lacks⟩
  requireUnbound e other s t states := by
    unfold requireUnbound
    split
    · exact .leftFault trivial
    · split
      · exact .rightFault rfl
      · exact .value rfl states
  bindName e other w w' same s t states := by
    obtain ⟨rfl, value⟩ := same
    obtain ⟨widened, lacks⟩ := states
    unfold bindName
    split
    · exact .leftFault trivial
    · split
      · exact .rightFault rfl
      · next absent =>
        have absent : t.binds e other = false := Bool.eq_false_iff.mpr absent
        exact .value rfl ⟨widened.insert absent w, lacks.allValues.insert e other value⟩
  newFrame e s t states := by
    obtain ⟨widened, lacks⟩ := states
    exact .value widened.size.symm ⟨widened.addChild e, lacks.allValues.addChild e⟩
  newClosure params body body' e same s t states := by
    obtain ⟨rfl, lacks⟩ := same
    obtain ⟨⟨size, others, root, stamps⟩, stored⟩ := states
    refine .value ⟨?_, lacks⟩ ⟨⟨size, others, root, congrArg (· + 1) stamps⟩, stored⟩
    rw [stamps]
  nil := ⟨rfl, rfl⟩
  truthy w w' same := by rw [same.1]
  bindingName w w' same := by
    obtain ⟨rfl, -⟩ := same
    cases w.bindingName with
    | ok other => exact .ok rfl
    | error cause => exact .error rfl
  procedures f g same := by
    obtain ⟨rfl, lacks⟩ := same
    cases f with
    | builtin b =>
      have other : b ≠ .isBound := by simpa [Value.lacks] using lacks
      refine .builtin fun e as bs operands => ?_
      obtain ⟨rfl, lack⟩ := agree_of_forall₂ operands
      exact widening_call other lack e
    | closure => exact .closure ⟨rfl, lacks⟩
    | _ => exact .other rfl rfl rfl
  shapes p q same := by
    obtain ⟨rfl, lacks⟩ := same
    exact widening_selfsame.shapes lacks

end Correspondence

open Correspondence in
/-- Evaluation of a form without `bound?` does the same on the wider store, unless it fails on the
store itself or finds a name bound on the wider one. -/
theorem evaluate_widening (root : FrameId) (name : String) (v : Value) :
    ∀ depth, (widening root name v).Evaluators (evaluate depth) (evaluate depth)
  | 0 => fun _ _ _ _ _ _ _ => .leftExhausted trivial
  | depth + 1 => step_related widening_lawful (evaluate_widening root name v depth)

/-- A later definition in a root frame never silently changes what existing code means. Where
`bound?` occurs neither in a form nor in any value that a frame binds, let the form give a value. In
the store that binds one more name in a root frame, which did not bind it, the form comes to an end,
and it either gives the same value and leaves the same frames but for that binding, or it fails
because it finds a name already bound. -/
theorem root_definition_conservative {s s' : Store} {e root : FrameId} {form r : Value}
    {frame : Frame} {name : String} (formLacks : form.lacks .isBound = true)
    (storeLacks : s.Lacks .isBound) (present : s.frames[root]? = some frame)
    (top : frame.parent = none) (unbound : frame.find? name = none) (v : Value)
    (concludes : Concludes e form s (.value r) s') :
    (∃ o t, Concludes e form (s.insert root name v) o t) ∧
      ∀ o t, Concludes e form (s.insert root name v) o t →
        (o = .value r ∧ s'.Widened root name v t) ∨ o = .fault .alreadyBound := by
  obtain ⟨-, depth, ran⟩ := concludes
  have states : (Correspondence.widening root name v).states s (s.insert root name v) :=
    ⟨.of_insert present top unbound, storeLacks⟩
  have ends := evaluate_widening root name v depth e form form ⟨rfl, formLacks⟩ s _ states
  rw [ran] at ends
  -- The form has one ending only, so it is enough to find one that is allowed.
  have settled : ∀ o t, evaluate depth e form (s.insert root name v) = (o, t) → o ≠ .exhausted →
      ((o = .value r ∧ s'.Widened root name v t) ∨ o = .fault .alreadyBound) →
      (∃ o t, Concludes e form (s.insert root name v) o t) ∧
        ∀ o t, Concludes e form (s.insert root name v) o t →
          (o = .value r ∧ s'.Widened root name v t) ∨ o = .fault .alreadyBound := by
    intro o t ran ended allowed
    refine ⟨⟨o, t, ended, depth, ran⟩, fun o' t' concludes => ?_⟩
    obtain ⟨rfl, rfl⟩ := concludes.unique ⟨ended, depth, ran⟩
    exact allowed
  generalize wider : evaluate depth e form (s.insert root name v) = result at ends settled
  cases ends with
  | value same states =>
    obtain ⟨rfl, -⟩ := same
    exact settled _ _ rfl nofun (.inl ⟨rfl, states.1⟩)
  | rightFault cause =>
    cases cause
    exact settled _ _ rfl nofun (.inr rfl)

/-- A procedure whose parameter has the new name goes on as before, even if the new value is
`bound?` itself. To bind the name is refused. -/
theorem root_definition_conservative_parameter :
    let body : Value := .list [.symbol "list", .symbol "n"]
    let root : Frame := ⟨[("f", .closure 0 ["n"] body 0), ("list", .builtin .list)], none, false⟩
    let s : Store := ⟨#[root], 1, #[]⟩
    let wider := s.insert 0 "n" (.builtin .isBound)
    let s' : Store := ⟨#[root, ⟨[("n", .int 7)], some 0, true⟩], 1, #[]⟩
    let call : Value := .list [.symbol "f", .int 7]
    Concludes 0 call s (.value (.list [.int 7])) s' ∧
      (∃ t, Concludes 0 call wider (.value (.list [.int 7])) t ∧
        s'.Widened 0 "n" (.builtin .isBound) t) ∧
      Concludes 0 (.list [.symbol "bind", .symbol "n", .int 7]) wider (.fault .alreadyBound) wider ∧
      Fault.alreadyBound.code = "EVAL011" := by
  intro body root s wider s' call
  have concludes : Concludes 0 call s (.value (.list [.int 7])) s' := ⟨nofun, 3, rfl⟩
  have again : Concludes 0 call wider (.value (.list [.int 7])) _ := ⟨nofun, 3, rfl⟩
  have lacks : s.Lacks .isBound := by
    rintro (_ | i) frame present
    · obtain rfl : root = frame := Option.some.inj present
      exact List.forall_mem_cons.mpr ⟨rfl, List.forall_mem_cons.mpr ⟨rfl, nofun⟩⟩
    · cases present
  have present : s.frames[0]? = some root := rfl
  have unbound : root.find? "n" = none := rfl
  have conservative :=
    root_definition_conservative rfl lacks present rfl unbound (.builtin .isBound) concludes
  refine ⟨concludes, ⟨_, again, ?_⟩, ⟨nofun, 2, rfl⟩, rfl⟩
  obtain ⟨-, widened⟩ | refused := conservative.2 _ _ again
  · exact widened
  · cases refused

end SmallLisp
