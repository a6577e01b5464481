import SmallLisp.Proofs.Visibility

/-!
Procedures inside values.

A procedure can stand in a list, in the body of a closure, or deeper. The built-in procedures make no
new ones: what occurs in their result occurs in an operand (`Builtin.allProcedures_call`). So a
property of procedures that all values of a program have at the start is lost, if at all, only where
closures are made.
-/

namespace SmallLisp

namespace Value

/-- The value `part` is the whole value, or occurs in an element of a list or in the body of a
closure. -/
inductive OccursIn (part : Value) : Value → Prop
  | here : OccursIn part part
  | item {items : List Value} {v : Value} : v ∈ items → OccursIn part v → OccursIn part (.list items)
  | body {stamp : Nat} {params : List String} {body : Value} {scope : FrameId} :
      OccursIn part body → OccursIn part (.closure stamp params body scope)

/-- All procedures that occur in the value satisfy `P`. -/
def AllProcedures (P : Value → Prop) (v : Value) : Prop :=
  ∀ f, f.isCallable = true → f.OccursIn v → P f

variable {P Q : Value → Prop}

theorem AllProcedures.mono {v : Value} (weaker : ∀ f, P f → Q f) (all : v.AllProcedures P) :
    v.AllProcedures Q :=
  fun f callable occurs => weaker f (all f callable occurs)

/-- The procedures in a list are those in its elements. -/
theorem allProcedures_list_iff {items : List Value} :
    (list items).AllProcedures P ↔ ∀ v ∈ items, v.AllProcedures P := by
  constructor
  · intro all v member f callable occurs
    exact all f callable (.item member occurs)
  · intro all f callable occurs
    cases occurs with
    | here => cases callable
    | item member occurs => exact all _ member f callable occurs

/-- The procedures in a closure are the closure and those in its body. -/
theorem allProcedures_closure_iff {stamp : Nat} {params : List String} {body : Value}
    {scope : FrameId} :
    (closure stamp params body scope).AllProcedures P ↔
      P (closure stamp params body scope) ∧ body.AllProcedures P := by
  constructor
  · intro all
    exact ⟨all _ rfl .here, fun f callable occurs => all f callable (.body occurs)⟩
  · rintro ⟨own, inner⟩ f callable occurs
    cases occurs with
    | here => exact own
    | body occurs => exact inner f callable occurs

theorem allProcedures_builtin_iff {b : Builtin} :
    (builtin b).AllProcedures P ↔ P (builtin b) := by
  constructor
  · intro all
    exact all _ rfl .here
  · intro own f callable occurs
    cases occurs
    exact own

/-- An atom that cannot be applied holds no procedure. -/
theorem allProcedures_of_atom {v : Value} (atom : v.items? = none) (inert : v.isCallable = false) :
    v.AllProcedures P := by
  intro f callable occurs
  cases occurs with
  | here =>
    rw [inert] at callable
    cases callable
  | item => cases atom
  | body => cases inert

/-- Joining forms into a body brings no procedure in. -/
theorem allProcedures_bodyForm {forms : List Value} (all : ∀ v ∈ forms, v.AllProcedures P) :
    (bodyForm forms).AllProcedures P := by
  unfold bodyForm
  split
  · exact all _ List.mem_cons_self
  · refine allProcedures_list_iff.mpr (List.forall_mem_cons.mpr ⟨?_, all⟩)
    exact allProcedures_of_atom rfl rfl

end Value

/-! ### What built-in procedures give -/

section Results

open Value

variable {P : Value → Prop} {operands : List Value} {w : Value}

theorem allProcedures_of_map_eq_ok {α : Type} {r : Except Fault α} {make : α → Value}
    (made : ∀ a, (make a).AllProcedures P) (given : r.map make = .ok w) : w.AllProcedures P := by
  cases r with
  | error => cases given
  | ok a =>
    cases given
    exact made a

/-- Arithmetic gives numbers, which hold no procedures. -/
theorem Operation.allProcedures_apply {op : Operation} (given : op.apply operands = .ok w) :
    w.AllProcedures P := by
  unfold Operation.apply at given
  split at given
  · cases given
  split at given
  · cases given
  · split at given
    · cases given
      exact allProcedures_of_atom rfl rfl
    · cases given
  · split at given
    · exact allProcedures_of_map_eq_ok (fun _ => allProcedures_of_atom rfl rfl) given
    · cases given
      exact allProcedures_of_atom rfl rfl

namespace Sequences

theorem lists?_allProcedures {items : List Value} (all : ∀ v ∈ operands, v.AllProcedures P)
    (given : lists? operands = some items) : ∀ v ∈ items, v.AllProcedures P := by
  fun_induction lists? operands generalizing items with
  | case1 =>
    cases given
    exact List.forall_mem_nil _
  | case2 first rest ih =>
    obtain ⟨here, others⟩ := List.forall_mem_cons.mp all
    obtain ⟨more, found, rfl⟩ := Option.map_eq_some_iff.mp given
    exact List.forall_mem_append.mpr ⟨allProcedures_list_iff.mp here, ih others found⟩
  | case3 => cases given

/-- Concatenation gives elements of its operands, or a text. -/
theorem allProcedures_concat (all : ∀ v ∈ operands, v.AllProcedures P)
    (given : concat operands = .ok w) : w.AllProcedures P := by
  unfold concat at given
  split at given
  · next items found =>
    cases given
    exact allProcedures_list_iff.mpr (lists?_allProcedures all found)
  · split at given
    · cases given
      exact allProcedures_of_atom rfl rfl
    · cases given

theorem allProcedures_cons (all : ∀ v ∈ operands, v.AllProcedures P)
    (given : cons operands = .ok w) : w.AllProcedures P := by
  unfold cons at given
  split at given
  · cases given
  · next first rest =>
    obtain ⟨here, others⟩ := List.forall_mem_cons.mp all
    split at given
    · next items found =>
      cases given
      refine allProcedures_list_iff.mpr (List.forall_mem_cons.mpr ⟨here, ?_⟩)
      exact lists?_allProcedures others found
    · split at given
      · exact allProcedures_of_map_eq_ok (fun _ => allProcedures_of_atom rfl rfl) given
      · cases given
        exact allProcedures_list_iff.mpr all

theorem allProcedures_head (all : ∀ v ∈ operands, v.AllProcedures P)
    (given : head operands = .ok w) : w.AllProcedures P := by
  unfold head at given
  split at given
  · next v =>
    cases given
    have all := all v List.mem_cons_self
    unfold first?
    split
    · exact allProcedures_list_iff.mp all _ List.mem_cons_self
    · exact allProcedures_of_atom rfl rfl
  · cases given

theorem allProcedures_tail (all : ∀ v ∈ operands, v.AllProcedures P)
    (given : tail operands = .ok w) : w.AllProcedures P := by
  unfold tail at given
  split at given
  · next items =>
    cases given
    have all := allProcedures_list_iff.mp (all _ List.mem_cons_self)
    exact allProcedures_list_iff.mpr fun v member => all v (List.mem_of_mem_drop member)
  · cases given
    exact allProcedures_of_atom rfl rfl
  · cases given

theorem allProcedures_join (all : ∀ v ∈ operands, v.AllProcedures P)
    (given : join operands = .ok w) : w.AllProcedures P := by
  unfold join at given
  split at given
  · next first items =>
    cases given
    obtain ⟨here, others⟩ := List.forall_mem_cons.mp all
    have items := allProcedures_list_iff.mp (others _ List.mem_cons_self)
    exact allProcedures_list_iff.mpr (List.forall_mem_cons.mpr ⟨here, items⟩)
  · cases given
    exact allProcedures_list_iff.mpr all
  · cases given

end Sequences

/-- The procedures in the result of a built-in procedure occur in its operands. -/
theorem Builtin.allProcedures_call (all : ∀ v ∈ operands, v.AllProcedures P) {b : Builtin}
    {e : FrameId} {s t : Store} (called : b.call operands e s = (.value w, t)) :
    w.AllProcedures P := by
  have gives : ∀ {r : Except Fault Value}, (∀ v, r = .ok v → v.AllProcedures P) →
      (Run.ofExcept r : Run Store Value) s = (.value w, t) → w.AllProcedures P := by
    intro r results ran
    exact results w (Run.ofExcept_eq_value_iff.mp ran).1
  have maps : ∀ {α : Type} {r : Except Fault α} {make : α → Value},
      (∀ a, (make a).AllProcedures P) →
      (Run.ofExcept (r.map make) : Run Store Value) s = (.value w, t) → w.AllProcedures P :=
    fun made => gives fun _ => allProcedures_of_map_eq_ok made
  have inert : ∀ flag, (bool flag).AllProcedures P := fun _ => allProcedures_of_atom rfl rfl
  cases b with
  | add => exact gives (fun _ => Operation.allProcedures_apply) called
  | subtract => exact gives (fun _ => Operation.allProcedures_apply) called
  | multiply => exact gives (fun _ => Operation.allProcedures_apply) called
  | modulo => exact gives (fun _ => Operation.allProcedures_apply) called
  | less => exact maps inert called
  | greater => exact maps inert called
  | toText => exact maps (fun _ => allProcedures_of_atom rfl rfl) called
  | toSymbol => exact maps (fun _ => allProcedures_of_atom rfl rfl) called
  | concat => exact gives (fun _ => Sequences.allProcedures_concat all) called
  | cons => exact gives (fun _ => Sequences.allProcedures_cons all) called
  | head => exact gives (fun _ => Sequences.allProcedures_head all) called
  | tail => exact gives (fun _ => Sequences.allProcedures_tail all) called
  | join => exact gives (fun _ => Sequences.allProcedures_join all) called
  | list =>
    cases called
    exact allProcedures_list_iff.mpr all
  | _ =>
    cases called
    exact allProcedures_of_atom rfl rfl

end Results

/-! ### What frames bind -/

/-- All values that frames of the store bind satisfy `Q`. -/
def Store.AllValues (Q : Value → Prop) (s : Store) : Prop :=
  ∀ (i : FrameId) (frame : Frame), s.frames[i]? = some frame →
    ∀ binding ∈ frame.bindings, Q binding.2

namespace Store.AllValues

variable {Q R : Value → Prop} {s : Store}

theorem mono (all : s.AllValues Q) (weaker : ∀ v, Q v → R v) : s.AllValues R :=
  fun i frame present binding member => weaker _ (all i frame present binding member)

/-- The value of a name is one that a frame binds. -/
theorem lookup? (all : s.AllValues Q) {e : FrameId} {name : String} {w : Value}
    (found : s.lookup? e name = some w) : Q w := by
  obtain ⟨i, -, found⟩ := List.exists_of_findSome?_eq_some found
  obtain ⟨frame, present, found⟩ := Option.bind_eq_some_iff.mp found
  obtain ⟨before, after, split, -⟩ := List.lookup_eq_some_iff.mp found
  exact all i frame present (name, w) (by simp [split])

theorem insert (all : s.AllValues Q) (e : FrameId) (name : String) {w : Value} (value : Q w) :
    (s.insert e name w).AllValues Q := by
  intro i frame present
  rw [frame_insert] at present
  obtain ⟨old, before, rfl⟩ := Option.map_eq_some_iff.mp present
  split
  · exact List.forall_mem_cons.mpr ⟨value, all i old before⟩
  · exact all i old before

theorem addChild (all : s.AllValues Q) (parent : FrameId) : (s.addChild parent).AllValues Q := by
  intro i frame present
  simp only [Store.addChild, Array.getElem?_push] at present
  split at present
  · cases present
    exact List.forall_mem_nil _
  · exact all i frame present

end Store.AllValues

end SmallLisp
