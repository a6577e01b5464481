import SmallLisp.Proofs.Upkeep

/-!
Stores in which every closure can be applied.

A closure is made from a parameter list that has been checked and in a frame that exists, and after
that it is only passed around. So in all states that a session comes to, whether its lines fail or
not, the parameters of every closure differ from one another, the frame it was made in is there, and
the way up from every frame ends at a root (`Session.sound_after`). What a value may refer to depends
on the number of frames only, and frames never go away.
-/

namespace SmallLisp

open Run

/-! ### Sound values and stores -/

namespace Value

/-- With `size` frames, a procedure can be applied: the parameters of a closure differ from one
another, and the frame it was made in is there. -/
def Proper (size : Nat) : Value → Prop
  | .closure _ params _ scope => params.Nodup ∧ scope < size
  | _ => True

/-- All closures that occur in the value are proper. -/
def Sound (size : Nat) (v : Value) : Prop :=
  v.AllProcedures (Proper size)

/-- A closure stays proper when frames are added. -/
theorem proper_lasting : Lasting Proper where
  later {n m f} grown proper := by
    cases f with
    | closure => exact ⟨proper.1, Nat.lt_of_lt_of_le proper.2 grown⟩
    | _ => trivial
  inside proper := proper.2
  made distinct inside _ _ := ⟨distinct, inside⟩

end Value

namespace Store

/-- The way up from every frame ends at a root, and frames bind sound values. -/
structure Sound (s : Store) : Prop where
  rooted : ∀ e < s.frames.size, s.Rooted e
  values : s.AllValues (Value.Sound s.frames.size)

/-- Soundness survives all elementary changes. -/
theorem sound_upkeep : Upkeep Value.Proper Sound where
  toLasting := Value.proper_lasting
  values sound := sound.values
  change sound change :=
    ⟨change.rooted sound.rooted, change.allValues Value.proper_lasting sound.values⟩

/-- From a sound store with `n` frames at least, the computation leads to a sound store that has lost
no frame, and a value it ends with satisfies `Q` for the frames there are then. -/
abbrev Keeps {α : Type} (n : Nat) (Q : Nat → α → Prop) (x : Run Store α) : Prop :=
  Run.Keeps Sound (fun s => s.frames.size) n Q x

end Store

/-! ### Evaluation and expansion -/

def Evaluator.Keeps (eval : Evaluator) : Prop :=
  ∀ ⦃n : Nat⦄ ⦃e : FrameId⦄ ⦃form : Value⦄, e < n → form.Sound n →
    Store.Keeps n Value.Sound (eval e form)

/-- Wherever an evaluation is given up, the store is sound. -/
theorem evaluateUntil_keeps (stop : FrameId → Value → Store → Bool) (depth : Nat) :
    (evaluateUntil stop depth).Keeps :=
  evaluateUntil_upholds Store.sound_upkeep stop depth

/-- The store is sound, and so are the procedures that expand macros. -/
structure Workspace.Sound (w : Workspace) : Prop where
  store : w.store.Sound
  macros : ∀ entry ∈ w.macros.entries, entry.2.Sound w.store.frames.size

/-- Soundness survives all changes of a workspace. -/
theorem Workspace.sound_upkeep : Workspace.Upkeep Value.Proper Workspace.Sound where
  toLasting := Value.proper_lasting
  values sound := sound.store.values
  macros sound := sound.macros
  change {w w'} sound change := by
    refine ⟨?_, change.macros Value.proper_lasting sound.macros⟩
    cases change with
    | store change => exact Store.sound_upkeep.change sound.store change
    | define => exact sound.store

/-- As `Store.Keeps`, for computations that may also define macros. -/
abbrev Workspace.Keeps {α : Type} (n : Nat) (Q : Nat → α → Prop) (x : Run Workspace α) : Prop :=
  Run.Keeps Workspace.Sound (fun w => w.store.frames.size) n Q x

namespace Expander

/-- What expansion leaves of a form, if anything, is sound. -/
def LeavesSound (size : Nat) (expanded : Option Value) : Prop :=
  ∀ f, expanded = some f → f.Sound size

def Keeps (expand : Expander) (e : FrameId) : Prop :=
  ∀ ⦃n : Nat⦄ ⦃form : Value⦄, e < n → form.Sound n → Workspace.Keeps n LeavesSound (expand form)

end Expander

/-- Wherever an expansion is given up, the workspace is sound. -/
theorem expandUntil_keeps (stop : Value → Workspace → Bool) (e : FrameId) (depth : Nat) :
    (expandUntil stop depth e).Keeps e :=
  expandUntil_upholds Workspace.sound_upkeep stop e depth

/-! ### Sessions -/

namespace Session

/-- The workspace is sound, and the root frame is there. -/
structure Sound (session : Session) : Prop where
  workspace : session.workspace.Sound
  root : session.root < session.workspace.store.frames.size

theorem sound_start : start.Sound where
  workspace := by
    refine ⟨⟨fun e inside => ?_, fun i frame found binding member => ?_⟩, nofun⟩
    · obtain rfl : e = 0 := Nat.lt_one_iff.mp inside
      exact .root rfl rfl
    · obtain rfl : i = 0 := by
        have inside := (Array.getElem?_eq_some_iff.mp found).1
        exact Nat.lt_one_iff.mp inside
      cases found
      obtain ⟨b, -, rfl⟩ := List.mem_map.mp member
      exact Value.allProcedures_builtin_iff.mpr trivial
  root := by decide

/-- A line leaves the session sound and gives a sound value, if it gives one. -/
theorem line_sound {session : Session} (sound : session.Sound) (source : String) :
    (session.line source).2.Sound ∧ ∀ v, (session.line source).1 = .value v →
      v.Sound (session.line source).2.workspace.store.frames.size := by
  obtain ⟨kept, root, value⟩ := line_upheld Workspace.sound_upkeep sound.workspace sound.root source
  exact ⟨⟨kept, root⟩, value⟩

/-- However many lines are carried out, the session stays sound. -/
theorem sound_after {session : Session} (sound : session.Sound) (lines : List String) :
    (session.after lines).Sound := by
  obtain ⟨kept, root⟩ := after_upheld Workspace.sound_upkeep sound.workspace sound.root lines
  exact ⟨kept, root⟩

end Session

end SmallLisp
