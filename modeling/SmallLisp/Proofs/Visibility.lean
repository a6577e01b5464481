import SmallLisp.Proofs.Growth

/-!
What a frame can see.

A name is bound only where it has no value yet, so that a new binding hides no other one: all that a
frame sees while a form is evaluated in it, it sees in the end, with the same values
(`evaluate_hidesNothing`).
-/

namespace SmallLisp

open Run

namespace Store

variable {e own : FrameId} {s t : Store} {name : String}

/-! ### The way up from a frame -/

theorem lt_size_of_mem_ancestryUpTo {i : FrameId} :
    ∀ {count : Nat} {e : FrameId}, i ∈ s.ancestryUpTo count e → i < s.frames.size
  | count + 1, e, member => by
    unfold ancestryUpTo at member
    split at member
    · cases member
    · next frame found =>
      cases List.mem_cons.mp member with
      | inl here =>
        rw [here]
        exact (Array.getElem?_eq_some_iff.mp found).1
      | inr above =>
        split at above
        · cases above
        · exact lt_size_of_mem_ancestryUpTo above

/-- Growth keeps the frames on the way up from a frame. It could add some at the end only if the way
ended at a frame that was not there. -/
theorem Grows.ancestryUpTo_longer (grows : Grows own s t) :
    ∀ (count : Nat) (i : FrameId), s.ancestryUpTo count i <+: t.ancestryUpTo count i
  | 0, _ => List.prefix_rfl
  | count + 1, i => by
    unfold ancestryUpTo
    cases found : s.frames[i]? with
    | none => exact List.prefix_append [] _
    | some frame =>
      obtain ⟨later, foundLater, extends_⟩ := grows.frame found
      simp only [foundLater, extends_.parent, List.cons_prefix_cons, true_and]
      cases frame.parent with
      | none => exact List.prefix_rfl
      | some parent => exact grows.ancestryUpTo_longer count parent

/-- A value that is found on a way up is found on a longer one that binds the name in the same
places. -/
theorem lookup?_of_longer {v : Value} (way : s.ancestry e <+: t.ancestry e)
    (finds : ∀ i ∈ s.ancestry e, t.frameFind? name i = s.frameFind? name i)
    (found : s.lookup? e name = some v) : t.lookup? e name = some v := by
  have same : (s.ancestry e).findSome? (t.frameFind? name) = some v := by
    rw [← found, lookup?]
    generalize s.ancestry e = frames at finds
    induction frames with
    | nil => rfl
    | cons i frames ih =>
      obtain ⟨here, above⟩ := List.forall_mem_cons.mp finds
      rw [List.findSome?_cons, List.findSome?_cons, here, ih above]
  obtain ⟨further, longer⟩ := way
  rw [lookup?, ← longer, List.findSome?_append, same, Option.some_or]

/-! ### Stores in which a frame sees as much as before -/

/-- The store grows in the frame `e`, and what `e` saw it sees. -/
structure HidesNothing (e : FrameId) (s t : Store) : Prop where
  grows : Grows e s t
  keeps : ∀ name v, s.lookup? e name = some v → t.lookup? e name = some v

instance : IsPreorder Store (HidesNothing e) where
  refl s := ⟨refl_of (Grows e) s, fun _ _ found => found⟩
  trans _ _ _ first second :=
    ⟨first.grows.trans second.grows, fun name v found =>
      second.keeps name v (first.keeps name v found)⟩

theorem Untouched.hidesNothing (same : Untouched s t) : HidesNothing e s t where
  grows := same.grows e
  keeps name v found := by
    refine lookup?_of_longer ((same.grows e).ancestryUpTo_longer (e + 1) e) ?_ found
    intro i member
    rw [frameFind?, frameFind?, same i (lt_size_of_mem_ancestryUpTo member)]

/-- A binding is added to its own frame and to no other. -/
theorem frame_insert (v : Value) (i : FrameId) :
    (s.insert e name v).frames[i]? = s.frames[i]?.map fun frame =>
      if e = i then { frame with bindings := (name, v) :: frame.bindings } else frame := by
  rw [insert, Array.getElem?_modify]
  split <;> simp

theorem frameFind?_insert_of_ne {other : String} (differ : other ≠ name) (v : Value) (i : FrameId) :
    (s.insert e name v).frameFind? other i = s.frameFind? other i := by
  rw [frameFind?, frameFind?, frame_insert]
  cases s.frames[i]? with
  | none => rfl
  | some frame =>
    simp only [Option.map_some, Option.bind_some]
    split
    · simp [Frame.find?, List.lookup_cons, beq_false_of_ne differ]
    · rfl

/-- A name that has no value as seen from a frame may be bound there, even if other names have been
bound in the meantime. -/
theorem HidesNothing.insert (hides : HidesNothing e s t) (unbound : s.isBound e name = false)
    (absent : t.binds e name = false) (v : Value) : HidesNothing e s (t.insert e name v) where
  grows := hides.grows.trans (grows_insert absent v)
  keeps other w found := by
    have differ : other ≠ name := by
      rintro rfl
      simp [isBound, found] at unbound
    refine lookup?_of_longer ((grows_insert absent v).ancestryUpTo_longer (e + 1) e) ?_
      (hides.keeps other w found)
    exact fun i _ => frameFind?_insert_of_ne differ v i

end Store

/-! ### Evaluation -/

section Evaluation

open Store

namespace Evaluator

variable {eval : Evaluator} (hides : ∀ e form, Moves (HidesNothing e) (eval e form))

include hides

/-- That a name is unbound is checked before its value is evaluated and the binding made, and between
the two nothing but the frame itself can have gained the name. -/
theorem bind_hidesNothing (e : FrameId) (target form : Value) :
    Moves (HidesNothing e) (eval.bind e target form) := by
  refine (bindingName_moves hides e target).bind fun name s => ?_
  rw [bind_apply, requireUnbound]
  by_cases bound : s.isBound e name = true
  · rw [if_pos bound]
    exact refl_of (HidesNothing e) s
  · rw [if_neg bound]
    have moved := hides e form s
    simp only [bind_apply]
    rcases ran : eval e form s with ⟨v | cause | _, t⟩ <;> rw [ran] at moved
    · simp only [bindName]
      by_cases absent : t.binds e name = true
      · rw [if_pos absent]
        exact moved
      · rw [if_neg absent]
        exact moved.insert (by simpa using bound) (by simpa using absent) v
    · exact moved
    · exact moved

end Evaluator

/-- Evaluating a form in a frame hides nothing from the frame. -/
theorem evaluate_hidesNothing :
    ∀ (depth : Nat) (e : FrameId) (form : Value), Moves (HidesNothing e) (evaluate depth e form)
  | 0 => fun _ _ => moves_exhaust
  | depth + 1 =>
    have hides := evaluate_hidesNothing depth
    Evaluator.step_moves hides (evaluate_confined depth) (fun _ _ _ same => same.hidesNothing)
      (Evaluator.bind_hidesNothing hides)

end Evaluation

end SmallLisp
