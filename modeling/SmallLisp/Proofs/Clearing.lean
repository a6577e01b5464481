import Mathlib.Logic.Function.Basic
import SmallLisp.Proofs.FrameTree

/-!
What clearing a frame empties.

Clearing a frame also empties the frames made below the same root since the last time, and
`Store.clear` finds these by the mark that new frames get. A heap with reference counts cannot go
through all frames that were ever made. There each root has a register, which is handed down from
parent to child: a new frame is entered in it, clearing empties the frames that are entered, and the
entries of frames that have died are struck out when the register has grown. In a `Heap` both go
side by side. Whatever happens to it, and whenever frames die, the register and the marks lead to
the same frames among those alive (`clear_empties_frames_made_since`).
-/

namespace SmallLisp

/-! ### Roots and marks -/

namespace Store

variable {s t : Store} {e i : FrameId} {frame : Frame}

/-- As long as parents stay, so does the root. -/
theorem Rooted.rootOf_eq (rooted : s.Rooted e) (keeps : KeepsParents s t) :
    t.rootOf e = s.rootOf e := by
  rw [rootOf, rooted.ancestry_eq keeps, rootOf]

theorem Rooted.depth_eq (rooted : s.Rooted e) (keeps : KeepsParents s t) :
    t.depth e = s.depth e := by
  rw [depth, rooted.ancestry_eq keeps, depth]

theorem Rooted.rootOf_le (rooted : s.Rooted e) : s.rootOf e ≤ e := by
  induction rooted with
  | root found top => rw [rootOf_of_parent_eq_none found top]
  | child found higher older above ih =>
    rw [(Rooted.child found higher older above).rootOf_eq_parent found higher]
    exact Nat.le_trans ih (Nat.le_of_lt older)

/-- The root above a root is that root. -/
theorem Rooted.rootOf_rootOf (rooted : s.Rooted e) : s.rootOf (s.rootOf e) = s.rootOf e := by
  induction rooted with
  | root found top => rw [rootOf_of_parent_eq_none found top, rootOf_of_parent_eq_none found top]
  | child found higher older above ih =>
    rw [(Rooted.child found higher older above).rootOf_eq_parent found higher, ih]

/-- Whether the next clearing below the same root empties a frame. -/
def isRegistered (s : Store) (i : FrameId) : Bool :=
  s.frames[i]?.any (·.registered)

theorem isRegistered_of_frame (found : s.frames[i]? = some frame) :
    s.isRegistered i = frame.registered := by
  rw [isRegistered, found, Option.any_some]

theorem lt_size_of_isRegistered (registered : s.isRegistered i = true) : i < s.frames.size := by
  refine Nat.lt_of_not_le fun missing => ?_
  rw [isRegistered, Array.getElem?_eq_none missing] at registered
  cases registered

/-- A frame that is not there is its own root. -/
theorem lt_size_of_rootOf_ne (below : s.rootOf i ≠ i) : i < s.frames.size := by
  refine Nat.lt_of_not_le fun missing => below ?_
  rw [rootOf, ancestry, ancestryUpTo, Array.getElem?_eq_none missing, List.getLastD_nil]

end Store

/-! ### Histories -/

/-- What matters for clearing: a frame was made, or frames below a root were cleared. -/
inductive Event
  | made (i : FrameId)
  | cleared (root : FrameId)

/-- The frame was made since frames below `root` were last cleared. The history begins with what
happened last. -/
def MadeSince (root i : FrameId) : List Event → Prop
  | [] => False
  | .made j :: past => j = i ∨ MadeSince root i past
  | .cleared top :: past => top ≠ root ∧ MadeSince root i past

instance MadeSince.decidable (root i : FrameId) : ∀ past, Decidable (MadeSince root i past)
  | [] => inferInstanceAs (Decidable False)
  | .made j :: past =>
    have := decidable root i past
    inferInstanceAs (Decidable (j = i ∨ MadeSince root i past))
  | .cleared top :: past =>
    have := decidable root i past
    inferInstanceAs (Decidable (top ≠ root ∧ MadeSince root i past))

namespace Store

variable {s t : Store} {e i : FrameId} {frame : Frame} {past : List Event}

/-- Clearing `e` is to empty the frame `i`: it is `e`, or it was made below the root of `e` since
frames below that root were last cleared. -/
def IsDue (s : Store) (past : List Event) (e i : FrameId) : Prop :=
  i = e ∨ s.rootOf i ≠ i ∧ s.rootOf i = s.rootOf e ∧ MadeSince (s.rootOf e) i past

instance (s : Store) (past : List Event) (e i : FrameId) : Decidable (s.IsDue past e i) :=
  inferInstanceAs (Decidable (_ ∨ _))

/-- The frames that are marked are those made since frames below their root were last cleared,
without the roots. -/
structure Marked (past : List Event) (s : Store) : Prop where
  rooted : ∀ e < s.frames.size, s.Rooted e
  values : s.AllValues (Value.Meets Value.InScope s.frames.size)
  marked : ∀ i < s.frames.size,
    s.isRegistered i = true ↔ s.rootOf i ≠ i ∧ MadeSince (s.rootOf i) i past

/-! ### One frame more -/

theorem frame_push_of_lt (inside : i < s.frames.size) :
    (s.push frame).frames[i]? = s.frames[i]? := by
  rw [push, Array.getElem?_push, if_neg (Nat.ne_of_lt inside)]

theorem frame_push_nextFrame : (s.push frame).frames[s.nextFrame]? = some frame :=
  Array.getElem?_push_size

theorem size_push : (s.push frame).frames.size = s.frames.size + 1 :=
  Array.size_push frame

theorem ne_nextFrame (inside : i < s.frames.size) : i ≠ s.nextFrame :=
  Nat.ne_of_lt inside

theorem lt_or_eq_of_lt_push (inside : i < (s.push frame).frames.size) :
    i < s.frames.size ∨ i = s.nextFrame := by
  rw [size_push] at inside
  exact Nat.lt_succ_iff_lt_or_eq.mp inside

/-- A new frame leaves the parents of the others alone. -/
theorem keepsParents_push : KeepsParents s (s.push frame) := by
  intro i old found
  have inside : i < s.frames.size := (Array.getElem?_eq_some_iff.mp found).1
  exact ⟨old, (frame_push_of_lt inside).trans found, rfl⟩

theorem isRegistered_push_of_lt (inside : i < s.frames.size) :
    (s.push frame).isRegistered i = s.isRegistered i := by
  rw [isRegistered, frame_push_of_lt inside, isRegistered]

/-- A new frame is marked if it is no root, and is part of what was made since. -/
theorem Marked.push (order : s.Marked past)
    (values : ∀ binding ∈ frame.bindings, binding.2.Meets Value.InScope s.frames.size)
    (own : (s.push frame).Rooted s.nextFrame)
    (mark : frame.registered = true ↔ (s.push frame).rootOf s.nextFrame ≠ s.nextFrame) :
    (s.push frame).Marked (.made s.nextFrame :: past) where
  rooted i inside := by
    rcases lt_or_eq_of_lt_push inside with old | rfl
    · exact (order.rooted i old).of_keepsParents keepsParents_push
    · exact own
  values i later found binding member := by
    rw [size_push]
    refine Value.inScope_lasting.meets (Nat.le_succ _) ?_
    rcases lt_or_eq_of_lt_push (Array.getElem?_eq_some_iff.mp found).1 with old | rfl
    · rw [frame_push_of_lt old] at found
      exact order.values i _ found binding member
    · cases frame_push_nextFrame.symm.trans found
      exact values binding member
  marked i inside := by
    rcases lt_or_eq_of_lt_push inside with old | rfl
    · rw [isRegistered_push_of_lt old, (order.rooted i old).rootOf_eq keepsParents_push,
        order.marked i old]
      simp [MadeSince, (ne_nextFrame old).symm]
    · rw [isRegistered_of_frame frame_push_nextFrame, mark]
      simp [MadeSince]

/-! ### Changes in the frames there are -/

/-- No change of a running program touches the mark of a frame. -/
theorem Change.isRegistered_eq {P : Nat → Value → Prop} (change : s.Change P t)
    (inside : i < s.frames.size) : t.isRegistered i = s.isRegistered i := by
  obtain ⟨own, grows⟩ := change.grows
  obtain ⟨later, found, -⟩ := grows.frame (Array.getElem?_eq_getElem inside)
  rw [isRegistered_of_frame found]
  rcases change.frame_inv found with same | ⟨old, name, v, before, -, -, rfl⟩ | ⟨new, -⟩
  · exact (isRegistered_of_frame same).symm
  · exact (isRegistered_of_frame before).symm
  · exact absurd new (Nat.ne_of_lt inside)

/-- A change that makes no frame leaves marks and history in agreement. -/
theorem Marked.change (order : s.Marked past) (change : s.Change Value.InScope t)
    (same : t.frames.size = s.frames.size) : t.Marked past where
  rooted := change.rooted order.rooted
  values := change.allValues Value.inScope_lasting order.values
  marked i inside := by
    rw [same] at inside
    obtain ⟨own, grows⟩ := change.grows
    rw [change.isRegistered_eq inside, (order.rooted i inside).rootOf_eq grows.keepsParents]
    exact order.marked i inside

/-! ### Clearing -/

theorem size_clear (s : Store) (e : FrameId) : (s.clear e).frames.size = s.frames.size :=
  Array.size_mapIdx

/-- Clearing empties a frame and takes its mark away, or leaves it as it is. -/
theorem frame_clear (found : s.frames[i]? = some frame) (e : FrameId) :
    (s.clear e).frames[i]? = some (if s.isCleared e i frame then
      { frame with bindings := [], registered := false } else frame) := by
  rw [clear, Array.getElem?_mapIdx, found, Option.map_some]

/-- A frame that is emptied stays where it is in the tree. -/
theorem keepsParents_clear (s : Store) (e : FrameId) : KeepsParents s (s.clear e) := by
  intro i frame found
  refine ⟨_, frame_clear found e, ?_⟩
  split
  · rfl
  · rfl

def takeBindings (s : Store) (i : FrameId) : Store :=
  { s with frames := s.frames.modify i fun frame => { frame with bindings := [] } }

theorem frame_takeBindings (s : Store) (i j : FrameId) :
    (s.takeBindings i).frames[j]? =
      s.frames[j]?.map fun frame => if i = j then { frame with bindings := [] } else frame := by
  rw [takeBindings, Array.getElem?_modify]
  by_cases own : i = j
  · simp [own]
  · simp [own]

/-- Frames that are not in the list keep what they have. -/
theorem frame_foldl_takeBindings (found : List FrameId) (s : Store) (j : FrameId) :
    (found.foldl takeBindings s).frames[j]? =
      s.frames[j]?.map fun frame => if j ∈ found then { frame with bindings := [] } else frame := by
  induction found generalizing s with
  | nil => simp
  | cons i found ih =>
    rw [List.foldl_cons, ih, frame_takeBindings, Option.map_map]
    refine Option.map_congr fun frame _ => ?_
    by_cases own : i = j
    · simp [own]
    · simp [own, Ne.symm own]

/-- Clearing takes the marks away below one root. -/
theorem isRegistered_clear (e i : FrameId) :
    (s.clear e).isRegistered i = true ↔ s.isRegistered i = true ∧ s.rootOf i ≠ s.rootOf e := by
  cases found : s.frames[i]? with
  | none => simp [isRegistered, clear, found]
  | some frame =>
    rw [isRegistered_of_frame found, isRegistered_of_frame (frame_clear found e), isCleared]
    by_cases own : i = e
    · simp [own]
    · by_cases below : s.rootOf i = s.rootOf e
      · cases mark : frame.registered <;> simp [own, below, mark]
      · simp [own, below]

/-- The marks say what clearing is to empty. -/
theorem Marked.isCleared_iff (order : s.Marked past) (found : s.frames[i]? = some frame) :
    s.isCleared e i frame = true ↔ s.IsDue past e i := by
  have marked := order.marked i (Array.getElem?_eq_some_iff.mp found).1
  rw [isRegistered_of_frame found] at marked
  simp only [isCleared, IsDue, Bool.or_eq_true, beq_iff_eq, Bool.and_eq_true, marked]
  constructor
  · rintro (own | ⟨⟨below, since⟩, same⟩)
    · exact .inl own
    · exact .inr ⟨below, same, same ▸ since⟩
  · rintro (own | ⟨below, same, since⟩)
    · exact .inl own
    · exact .inr ⟨⟨below, same ▸ since⟩, same⟩

/-- Behind a clearing nothing below its root has been made since, and nothing there is marked. -/
theorem Marked.clear (order : s.Marked past) (e : FrameId) :
    (s.clear e).Marked (.cleared (s.rootOf e) :: past) where
  rooted i inside := by
    rw [size_clear] at inside
    exact (order.rooted i inside).of_keepsParents (keepsParents_clear s e)
  values i later found binding member := by
    have inside : i < s.frames.size := size_clear s e ▸ (Array.getElem?_eq_some_iff.mp found).1
    have before : s.frames[i]? = some s.frames[i] := Array.getElem?_eq_getElem inside
    cases (frame_clear before e).symm.trans found
    rw [size_clear]
    split at member
    · cases member
    · exact order.values i _ before binding member
  marked i inside := by
    rw [size_clear] at inside
    rw [isRegistered_clear, (order.rooted i inside).rootOf_eq (keepsParents_clear s e),
      order.marked i inside, MadeSince]
    tauto

end Store

/-! ### Registers -/

/-- From this length on, a register is rid of dead entries. -/
def Register.pruneFrom : Nat := 64

/-- Enters a frame in a register. Entries of frames that have died are struck out before, but only
if the length of the register is a power of two. -/
def Register.enter (alive : FrameId → Bool) (entries : List FrameId) (i : FrameId) : List FrameId :=
  let kept := if pruneFrom ≤ entries.length ∧ entries.length.isPowerOfTwo then entries.filter alive
    else entries
  kept ++ [i]

theorem Register.mem_enter_self (alive : FrameId → Bool) (entries : List FrameId) (i : FrameId) :
    i ∈ enter alive entries i :=
  List.mem_append_right _ (List.mem_singleton_self i)

/-- Whatever is struck out, frames that are alive stay in the register. -/
theorem Register.mem_enter {alive : FrameId → Bool} {entries : List FrameId} {j : FrameId}
    (member : j ∈ entries) (living : alive j = true) (i : FrameId) : j ∈ enter alive entries i := by
  refine List.mem_append_left _ ?_
  split
  · exact List.mem_filter.mpr ⟨member, living⟩
  · exact member

/-- Entering a frame brings no other frame into the register. -/
theorem Register.mem_or_eq_of_mem_enter {alive : FrameId → Bool} {entries : List FrameId}
    {i j : FrameId} (member : j ∈ enter alive entries i) : j ∈ entries ∨ j = i := by
  rcases List.mem_append.mp member with kept | new
  · split at kept
    · exact .inl (List.mem_of_mem_filter kept)
    · exact .inl kept
  · exact .inr (List.mem_singleton.mp new)

/-- A store, with the frames that are alive, the register that each frame holds, and the frames
entered in each register. A register goes by the number of the root it was made for. -/
structure Heap where
  store : Store
  alive : FrameId → Bool
  registerOf : FrameId → FrameId
  entries : FrameId → List FrameId

namespace Heap

def empty : Heap := ⟨.empty, fun _ => false, id, fun _ => []⟩

/-- A new root gets a register of its own, with nothing in it. -/
def addRoot (h : Heap) (bindings : List (String × Value)) : Heap :=
  let i := h.store.nextFrame
  { store := h.store.addRoot bindings
    alive := Function.update h.alive i true
    registerOf := Function.update h.registerOf i i
    entries := Function.update h.entries i [] }

/-- A new child gets the register of its parent, and is entered there. -/
def addChild (h : Heap) (parent : FrameId) : Heap :=
  let i := h.store.nextFrame
  let register := h.registerOf parent
  { store := h.store.addChild parent
    alive := Function.update h.alive i true
    registerOf := Function.update h.registerOf i register
    entries := Function.update h.entries register
      (Register.enter h.alive (h.entries register) i) }

def bind (h : Heap) (e : FrameId) (name : String) (v : Value) : Heap :=
  { h with store := h.store.insert e name v }

def bury (h : Heap) (i : FrameId) : Heap :=
  { h with alive := Function.update h.alive i false }

/-- Clearing a frame leaves nothing in its register. -/
def clear (h : Heap) (e : FrameId) : Heap :=
  { h with
    store := h.store.clear e
    entries := Function.update h.entries (h.registerOf e) [] }

/-- The frames that clearing `e` finds through its register: those in it that are alive, and `e`. -/
def found (h : Heap) (e : FrameId) : List FrameId :=
  (h.entries (h.registerOf e)).filter h.alive ++ [e]

/-- Clears a frame by way of its register: takes the bindings out of the frames that are found. -/
def sweep (h : Heap) (e : FrameId) : Store :=
  (h.found e).foldl Store.takeBindings h.store

/-- The heap comes about by what has happened: roots and children are made, values are bound, lines
are emitted, frames die, and frames are cleared, in any order and any number of times. -/
inductive After : List Event → Heap → Prop
  | empty : After [] empty
  | root {past : List Event} {h : Heap} {bindings : List (String × Value)} : After past h →
      (∀ binding ∈ bindings, binding.2.Meets Value.InScope h.store.frames.size) →
      After (.made h.store.nextFrame :: past) (h.addRoot bindings)
  | child {past : List Event} {h : Heap} (parent : FrameId) : After past h →
      parent < h.store.frames.size → After (.made h.store.nextFrame :: past) (h.addChild parent)
  | change {past : List Event} {h : Heap} {t : Store} : After past h →
      h.store.Change Value.InScope t → t.frames.size = h.store.frames.size →
      After past { h with store := t }
  | death {past : List Event} {h : Heap} (i : FrameId) : After past h → After past (h.bury i)
  | clear {past : List Event} {h : Heap} (e : FrameId) : After past h →
      e < h.store.frames.size → After (.cleared (h.store.rootOf e) :: past) (h.clear e)

/-- Every frame holds the register of its root. The frames in a register are marked and below its
root, and all frames that are marked and alive are in the register of their root. -/
structure InOrder (past : List Event) (h : Heap) : Prop where
  store : h.store.Marked past
  register : ∀ i < h.store.frames.size, h.registerOf i = h.store.rootOf i
  sound : ∀ root, ∀ i ∈ h.entries root, h.store.isRegistered i = true ∧ h.store.rootOf i = root
  complete : ∀ i, h.store.isRegistered i = true → h.alive i = true →
    i ∈ h.entries (h.store.rootOf i)

variable {h : Heap} {past : List Event} {i e root : FrameId} {frame : Frame}

theorem inOrder_empty : empty.InOrder [] := by
  have none : ∀ i, ¬ i < empty.store.frames.size := Nat.not_lt_zero
  refine ⟨⟨fun i inside => ?_, fun i frame found => ?_, fun i inside => ?_⟩, fun i inside => ?_,
    fun root i member => ?_, fun i marked => ?_⟩
  · exact absurd inside (none i)
  · exact absurd (Array.getElem?_eq_some_iff.mp found).1 (none i)
  · exact absurd inside (none i)
  · exact absurd inside (none i)
  · cases member
  · exact absurd (Store.lt_size_of_isRegistered marked) (none i)

namespace InOrder

variable (order : h.InOrder past)

include order

/-! The frames that were there before another one is made: -/

/-- The new frame holds the register of its root, as all the others go on to do. -/
theorem register_push {register : FrameId}
    (own : (h.store.push frame).rootOf h.store.nextFrame = register)
    (inside : i < (h.store.push frame).frames.size) :
    Function.update h.registerOf h.store.nextFrame register i = (h.store.push frame).rootOf i := by
  rcases Store.lt_or_eq_of_lt_push inside with old | rfl
  · rw [Function.update_of_ne (Store.ne_nextFrame old), order.register i old,
      (order.store.rooted i old).rootOf_eq Store.keepsParents_push]
  · rw [Function.update_self, own]

/-- A new frame takes nothing from what is said of the entries. -/
theorem sound_push (member : i ∈ h.entries root) :
    (h.store.push frame).isRegistered i = true ∧ (h.store.push frame).rootOf i = root := by
  obtain ⟨marked, below⟩ := order.sound root i member
  have inside := Store.lt_size_of_isRegistered marked
  rw [Store.isRegistered_push_of_lt inside,
    (order.store.rooted i inside).rootOf_eq Store.keepsParents_push]
  exact ⟨marked, below⟩

/-- An older frame that is marked and alive is entered as before. -/
theorem complete_push (inside : i < h.store.frames.size)
    (marked : (h.store.push frame).isRegistered i = true)
    (living : Function.update h.alive h.store.nextFrame true i = true) :
    h.alive i = true ∧ i ∈ h.entries ((h.store.push frame).rootOf i) := by
  rw [Store.isRegistered_push_of_lt inside] at marked
  rw [Function.update_of_ne (Store.ne_nextFrame inside)] at living
  rw [(order.store.rooted i inside).rootOf_eq Store.keepsParents_push]
  exact ⟨living, order.complete i marked living⟩

theorem addRoot {bindings : List (String × Value)}
    (values : ∀ binding ∈ bindings, binding.2.Meets Value.InScope h.store.frames.size) :
    (h.addRoot bindings).InOrder (.made h.store.nextFrame :: past) := by
  let frame : Frame := ⟨bindings, none, false⟩
  have newest : (h.store.push frame).frames[h.store.nextFrame]? = some frame :=
    Store.frame_push_nextFrame
  have own : (h.store.push frame).rootOf h.store.nextFrame = h.store.nextFrame :=
    Store.rootOf_of_parent_eq_none newest rfl
  refine ⟨order.store.push values (.root newest rfl) ?_, fun i => order.register_push own, ?_, ?_⟩
  · simp [own, frame]
  · intro root i member
    by_cases new : root = h.store.nextFrame
    · simp [Heap.addRoot, new] at member
    · simp only [Heap.addRoot, Function.update_of_ne new] at member
      exact order.sound_push member
  · intro i marked living
    rcases Store.lt_or_eq_of_lt_push (Store.lt_size_of_isRegistered marked) with old | rfl
    · obtain ⟨-, member⟩ := order.complete_push old marked living
      -- The roots of old frames are old, so nothing was done to their registers.
      have rooted : (h.store.push frame).Rooted i :=
        (order.store.rooted i old).of_keepsParents Store.keepsParents_push
      have other : (h.store.push frame).rootOf i ≠ h.store.nextFrame :=
        Store.ne_nextFrame (Nat.lt_of_le_of_lt rooted.rootOf_le old)
      show i ∈ Function.update h.entries _ [] ((h.store.push frame).rootOf i)
      rw [Function.update_of_ne other]
      exact member
    · cases (Store.isRegistered_of_frame newest).symm.trans marked

/-- A child is entered in the register of its root, and only dead entries are struck out for it. -/
theorem addChild {parent : FrameId} (inside : parent < h.store.frames.size) :
    (h.addChild parent).InOrder (.made h.store.nextFrame :: past) := by
  let frame : Frame := ⟨[], some parent, true⟩
  have newest : (h.store.push frame).frames[h.store.nextFrame]? = some frame :=
    Store.frame_push_nextFrame
  have above := order.store.rooted parent inside
  have rooted : (h.store.push frame).Rooted h.store.nextFrame :=
    .child newest rfl inside (above.of_keepsParents Store.keepsParents_push)
  have own : (h.store.push frame).rootOf h.store.nextFrame = h.registerOf parent := by
    rw [rooted.rootOf_eq_parent newest rfl, above.rootOf_eq Store.keepsParents_push,
      order.register parent inside]
  have older : h.registerOf parent < h.store.nextFrame := by
    rw [order.register parent inside]
    exact Nat.lt_of_le_of_lt above.rootOf_le inside
  refine ⟨order.store.push (List.forall_mem_nil _) rooted ?_, fun i => order.register_push own,
    ?_, ?_⟩
  · simp [own, frame, Nat.ne_of_lt older]
  · intro root i member
    by_cases same : root = h.registerOf parent
    · rw [same] at member ⊢
      simp only [Heap.addChild, Function.update_self] at member
      rcases Register.mem_or_eq_of_mem_enter member with old | rfl
      · exact order.sound_push old
      · exact ⟨Store.isRegistered_of_frame newest, own⟩
    · simp only [Heap.addChild, Function.update_of_ne same] at member
      exact order.sound_push member
  · intro i marked living
    show i ∈ Function.update h.entries _ _ ((h.store.push frame).rootOf i)
    rcases Store.lt_or_eq_of_lt_push (Store.lt_size_of_isRegistered marked) with old | rfl
    · obtain ⟨living, member⟩ := order.complete_push old marked living
      by_cases same : (h.store.push frame).rootOf i = h.registerOf parent
      · rw [same] at member ⊢
        rw [Function.update_self]
        exact Register.mem_enter member living _
      · rw [Function.update_of_ne same]
        exact member
    · rw [own, Function.update_self]
      exact Register.mem_enter_self _ _ _

theorem change {t : Store} (change : h.store.Change Value.InScope t)
    (same : t.frames.size = h.store.frames.size) : InOrder past { h with store := t } := by
  obtain ⟨own, grows⟩ := change.grows
  have sameRoot : ∀ i < h.store.frames.size, t.rootOf i = h.store.rootOf i := by
    intro i inside
    exact (order.store.rooted i inside).rootOf_eq grows.keepsParents
  refine ⟨order.store.change change same, ?_, ?_, ?_⟩
  · intro i inside
    rw [same] at inside
    rw [sameRoot i inside]
    exact order.register i inside
  · intro root i member
    obtain ⟨marked, below⟩ := order.sound root i member
    have inside := Store.lt_size_of_isRegistered marked
    rw [change.isRegistered_eq inside, sameRoot i inside]
    exact ⟨marked, below⟩
  · intro i marked living
    have inside : i < h.store.frames.size := same ▸ Store.lt_size_of_isRegistered marked
    rw [change.isRegistered_eq inside] at marked
    rw [sameRoot i inside]
    exact order.complete i marked living

/-- A death takes a frame from those that have to be entered, and no entry away. -/
theorem bury (i : FrameId) : (h.bury i).InOrder past := by
  refine ⟨order.store, order.register, order.sound, ?_⟩
  intro j marked living
  by_cases dead : j = i
  · simp [Heap.bury, dead] at living
  · simp only [Heap.bury, Function.update_of_ne dead] at living
    exact order.complete j marked living

/-- Clearing leaves the register empty, and the frames below its root without marks. -/
theorem clear (inside : e < h.store.frames.size) :
    (h.clear e).InOrder (.cleared (h.store.rootOf e) :: past) := by
  have sameRoot : ∀ i < h.store.frames.size, (h.store.clear e).rootOf i = h.store.rootOf i := by
    intro i inside
    exact (order.store.rooted i inside).rootOf_eq (Store.keepsParents_clear h.store e)
  refine ⟨order.store.clear e, ?_, ?_, ?_⟩
  · intro i inside
    have present : i < h.store.frames.size := Store.size_clear h.store e ▸ inside
    exact (order.register i present).trans (sameRoot i present).symm
  · intro root i member
    by_cases same : root = h.registerOf e
    · simp [Heap.clear, same] at member
    · simp only [Heap.clear, Function.update_of_ne same] at member
      obtain ⟨marked, below⟩ := order.sound root i member
      rw [order.register e inside] at same
      refine ⟨(Store.isRegistered_clear e i).mpr ⟨marked, below ▸ same⟩, ?_⟩
      exact (sameRoot i (Store.lt_size_of_isRegistered marked)).trans below
  · intro i marked living
    obtain ⟨marked, other⟩ := (Store.isRegistered_clear e i).mp marked
    have present := Store.lt_size_of_isRegistered marked
    show i ∈ Function.update h.entries _ _ ((h.store.clear e).rootOf i)
    rw [sameRoot i present, order.register e inside, Function.update_of_ne other]
    exact order.complete i marked living

end InOrder

/-- Whatever happens, the registers stay in order. -/
theorem After.inOrder (after : After past h) : h.InOrder past := by
  induction after with
  | empty => exact inOrder_empty
  | root _ values ih => exact ih.addRoot values
  | child _ _ inside ih => exact ih.addChild inside
  | change _ change same ih => exact ih.change change same
  | death i _ ih => exact ih.bury i
  | clear _ _ inside ih => exact ih.clear inside

/-- Through its register, clearing finds what it is to empty, as far as it is alive. -/
theorem InOrder.mem_found_iff (order : h.InOrder past) (inside : e < h.store.frames.size) :
    i ∈ h.found e ↔ i = e ∨ h.alive i = true ∧ h.store.IsDue past e i := by
  rw [found, List.mem_append, List.mem_filter, List.mem_singleton, order.register e inside, or_comm]
  constructor
  · rintro (own | ⟨member, living⟩)
    · exact .inl own
    · obtain ⟨marked, same⟩ := order.sound _ i member
      have due := (order.store.marked i (Store.lt_size_of_isRegistered marked)).mp marked
      exact .inr ⟨living, .inr ⟨due.1, same, same ▸ due.2⟩⟩
  · rintro (own | ⟨living, own | ⟨below, same, since⟩⟩)
    · exact .inl own
    · exact .inl own
    · have marked := (order.store.marked i (Store.lt_size_of_rootOf_ne below)).mpr
        ⟨below, same ▸ since⟩
      exact .inr ⟨same ▸ order.complete i marked living, living⟩

/-- What clearing does to the frames that are alive can be done by way of the register. -/
theorem InOrder.sweep_eq (order : h.InOrder past) (inside : e < h.store.frames.size)
    (living : h.alive i = true ∨ i = e) :
    (h.sweep e).frames[i]?.map (fun frame => (frame.bindings, frame.parent)) =
      (h.store.clear e).frames[i]?.map fun frame => (frame.bindings, frame.parent) := by
  rw [sweep, Store.frame_foldl_takeBindings]
  cases found : h.store.frames[i]? with
  | none =>
    have missing : (h.store.clear e).frames.size ≤ i :=
      h.store.size_clear e ▸ Array.getElem?_eq_none_iff.mp found
    rw [Array.getElem?_eq_none missing]
    rfl
  | some frame =>
    have same : i ∈ h.found e ↔ h.store.isCleared e i frame = true := by
      rw [order.mem_found_iff inside, order.store.isCleared_iff found]
      constructor
      · rintro (own | ⟨-, due⟩)
        · exact .inl own
        · exact due
      · intro due
        rcases living with living | own
        · exact .inr ⟨living, due⟩
        · exact .inl own
    rw [Store.frame_clear found e]
    by_cases due : i ∈ h.found e
    · simp [due, same.mp due]
    · simp [due, mt same.mpr due]

/-! ### Running code -/

/-- So many frames were made one after the other, beginning with the number `first`. -/
def framesMade (first : FrameId) : Nat → List Event
  | 0 => []
  | count + 1 => .made (first + count) :: framesMade first count

theorem After.bind (after : After past h) {name : String} {v : Value}
    (inside : e < h.store.frames.size) (unbound : h.store.binds e name = false)
    (value : v.Meets Value.InScope h.store.frames.size) : After past (h.bind e name v) :=
  after.change (.binding inside unbound value) Array.size_modify

def buryAll (h : Heap) (dead : List FrameId) : Heap :=
  dead.foldl bury h

/-- Deaths leave the store as it is. -/
theorem store_buryAll (h : Heap) (dead : List FrameId) : (h.buryAll dead).store = h.store := by
  induction dead generalizing h with
  | nil => rfl
  | cons i dead ih => exact ih (h.bury i)

theorem After.buryAll (after : After past h) (dead : List FrameId) :
    After past (h.buryAll dead) := by
  induction dead generalizing h with
  | nil => exact after
  | cons i dead ih => exact ih (after.death i)

/-- Running code leads from `h` to another heap by elementary changes of the store. After each of
them those frames die that `dying` has for the new store. Every change adds something to the store,
so none comes twice and frames may die at any step. -/
inductive Runs (dying : Store → List FrameId) (h : Heap) : Heap → Prop
  | refl : Runs dying h h
  | change {h' : Heap} {t : Store} : Runs dying h h' → h'.store.Change Value.InScope t →
      t.frames.size = h'.store.frames.size →
      Runs dying h (buryAll { h' with store := t } (dying t))
  | child {h' : Heap} {parent : FrameId} : Runs dying h h' → parent < h'.store.frames.size →
      Runs dying h ((h'.addChild parent).buryAll (dying (h'.store.addChild parent)))

variable {dying : Store → List FrameId} {h' : Heap}

/-- A run is something that happens to a heap. It makes frames and clears none. -/
theorem Runs.after (runs : h.Runs dying h') (after : After past h) :
    ∃ count, h'.store.frames.size = h.store.frames.size + count ∧
      After (framesMade h.store.frames.size count ++ past) h' := by
  induction runs with
  | refl => exact ⟨0, rfl, after⟩
  | change _ change same ih =>
    obtain ⟨count, grown, after'⟩ := ih
    refine ⟨count, ?_, (after'.change change same).buryAll _⟩
    rw [store_buryAll, ← grown]
    exact same
  | @child h' parent _ inside ih =>
    obtain ⟨count, grown, after'⟩ := ih
    refine ⟨count + 1, ?_, ?_⟩
    · rw [store_buryAll, ← Nat.add_assoc, ← grown]
      exact Array.size_push _
    · have made := (after'.child parent inside).buryAll (dying (h'.store.addChild parent))
      rw [Store.nextFrame, grown] at made
      exact made

/-- Each change of the store is one step further, with the deaths that are due then. -/
theorem Runs.step (runs : h.Runs dying h') {t : Store} (change : h'.store.Change Value.InScope t) :
    ∃ h'', h.Runs dying h'' ∧ h''.store = t := by
  have still : t.frames.size = h'.store.frames.size → ∃ h'', h.Runs dying h'' ∧ h''.store = t :=
    fun same => ⟨_, runs.change change same, store_buryAll _ _⟩
  cases change with
  | frame inside => exact ⟨_, runs.child inside, store_buryAll _ _⟩
  | binding => exact still Array.size_modify
  | stamp => exact still rfl
  | blank => exact still rfl
  | globals => exact still rfl

/-- What programs do to a workspace is a run, whatever dies meanwhile. -/
theorem exists_runs (dying : Store → List FrameId) {w w' : Workspace} (same : h.store = w.store)
    (evolves : w.Evolves w') : ∃ h', h.Runs dying h' ∧ h'.store = w'.store := by
  induction evolves with
  | refl => exact ⟨h, .refl, same⟩
  | tail _ change ih =>
    obtain ⟨h', runs, reached⟩ := ih
    cases change with
    | define => exact ⟨h', runs, reached⟩
    | store change =>
      rw [← reached] at change
      exact runs.step change

end Heap

/-- Clearing a frame empties that frame and the frames made below the same root since frames there
were last cleared, and nothing else. This holds after any history of roots and children, bindings,
deaths and earlier clearings, and running code is part of such a history, whichever frames die
meanwhile: the frames it makes have been made, and it clears nothing. No frame of another root
changes, a root is emptied only if it is cleared itself, and no frame gets another parent, depth or
root. The register of the cleared frame leads to these frames too, without the dead, and emptying
what it leads to comes to the same for all that are alive. -/
theorem clear_empties_frames_made_since {past : List Event} {h : Heap} (after : Heap.After past h) :
    let s := h.store
    (∀ dying stop depth e form, e < s.frames.size → form.Meets Value.InScope s.frames.size →
      ∃ count h', h.Runs dying h' ∧ Heap.After (Heap.framesMade s.frames.size count ++ past) h' ∧
        h'.store = (evaluateUntil stop depth e form s).2) ∧
    (∀ macros : MacroTable, (∀ entry ∈ macros.entries, entry.2.Meets Value.InScope s.frames.size) →
      ∀ dying stop depth e form, e < s.frames.size → form.Meets Value.InScope s.frames.size →
        ∃ count h', h.Runs dying h' ∧ Heap.After (Heap.framesMade s.frames.size count ++ past) h' ∧
          h'.store = (expandUntil stop depth e form ⟨s, macros⟩).2.store) ∧
    ∀ e < s.frames.size,
      let t := s.clear e
      t = { s with frames := t.frames } ∧ t.frames.size = s.frames.size ∧
      (∀ i frame, s.frames[i]? = some frame → ∃ later, t.frames[i]? = some later ∧
        later.parent = frame.parent ∧ (s.IsDue past e i → later.bindings = []) ∧
        (¬ s.IsDue past e i → later = frame)) ∧
      (s.rootOf e ≠ e → t.frames[s.rootOf e]? = s.frames[s.rootOf e]?) ∧
      (∀ i, s.rootOf i ≠ s.rootOf e → t.frames[i]? = s.frames[i]?) ∧
      (∀ i < s.frames.size, t.depth i = s.depth i ∧ t.rootOf i = s.rootOf i) ∧
      (∀ i, i ∈ h.found e ↔ i = e ∨ h.alive i = true ∧ s.IsDue past e i) ∧
      ∀ i, h.alive i = true ∨ i = e →
        (h.sweep e).frames[i]?.map (fun frame => (frame.bindings, frame.parent)) =
          t.frames[i]?.map fun frame => (frame.bindings, frame.parent) := by
  intro s
  have order := after.inOrder
  have runs : ∀ dying {macros w'}, Workspace.Evolves ⟨s, macros⟩ w' →
      ∃ count h', h.Runs dying h' ∧ Heap.After (Heap.framesMade s.frames.size count ++ past) h' ∧
        h'.store = w'.store := by
    intro dying macros w' evolves
    obtain ⟨h', ran, reached⟩ := Heap.exists_runs dying rfl evolves
    obtain ⟨count, -, after'⟩ := ran.after after
    exact ⟨count, h', ran, after', reached⟩
  refine ⟨?_, ?_, ?_⟩
  · intro dying stop depth e form inside meets
    have inScope : Workspace.InScope ⟨s, .empty⟩ := ⟨order.store.values, List.forall_mem_nil _⟩
    have upkeep := (Workspace.evolves_upkeep inScope).onStore .empty
    exact runs dying
      (evaluateUntil_upholds upkeep stop depth inside meets s .refl (Nat.le_refl _)).1
  · intro macros procedures dying stop depth e form inside meets
    have upkeep := Workspace.evolves_upkeep (w := ⟨s, macros⟩) ⟨order.store.values, procedures⟩
    exact runs dying (expandUntil_upholds upkeep stop e depth inside meets ⟨s, macros⟩ .refl
      (Nat.le_refl _)).1
  intro e inside t
  have unchanged : ∀ i, ¬ s.IsDue past e i → t.frames[i]? = s.frames[i]? := by
    intro i kept
    cases found : s.frames[i]? with
    | none =>
      have missing : t.frames.size ≤ i := s.size_clear e ▸ Array.getElem?_eq_none_iff.mp found
      exact Array.getElem?_eq_none missing
    | some frame =>
      rw [Store.frame_clear found e, if_neg (mt (order.store.isCleared_iff found).mp kept)]
  refine ⟨rfl, s.size_clear e, ?_, ?_, ?_, ?_, fun i => order.mem_found_iff inside, ?_⟩
  · intro i frame found
    obtain ⟨later, foundLater, parent⟩ := s.keepsParents_clear e i frame found
    refine ⟨later, foundLater, parent, fun due => ?_, fun kept => ?_⟩
    · have cleared := (order.store.isCleared_iff found).mpr due
      rw [Store.frame_clear found e, if_pos cleared] at foundLater
      cases foundLater
      rfl
    · rw [unchanged i kept, found] at foundLater
      cases foundLater
      rfl
  · intro below
    refine unchanged _ fun due => ?_
    rcases due with own | ⟨notRoot, -⟩
    · exact below own
    · exact notRoot (order.store.rooted e inside).rootOf_rootOf
  · intro i other
    refine unchanged i fun due => ?_
    rcases due with rfl | ⟨-, same, -⟩
    · exact other rfl
    · exact other same
  · intro i present
    have rooted := order.store.rooted i present
    exact ⟨rooted.depth_eq (s.keepsParents_clear e), rooted.rootOf_eq (s.keepsParents_clear e)⟩
  · intro i living
    exact order.sweep_eq inside living

/-- A frame that was emptied before and has a binding again keeps it when its root is cleared, since
it was made too early; its child is emptied, and the other root is not. -/
theorem clear_empties_frames_made_since_cleared_before :
    let early := (((Heap.empty.addRoot []).addRoot []).addChild 0).bind 2 "x" .nil
    let again := ((early.clear 2).bind 2 "y" .nil).bind 1 "b" .nil
    let late := (again.addChild 2).bind 3 "z" .nil
    let h := (late.addChild 3).bury 4
    let t := h.store.clear 0
    Heap.After [.made 4, .made 3, .cleared 0, .made 2, .made 1, .made 0] h ∧ h.found 0 = [3, 0] ∧
      t.frames[3]?.map (·.bindings) = some [] ∧
      t.frames[2]?.map (·.bindings) = some [("y", .nil)] ∧
      t.frames[1]?.map (·.bindings) = some [("b", .nil)] ∧ t.rootOf 4 = 0 ∧
      (h.sweep 0).frames[3]?.map (fun frame => (frame.bindings, frame.parent)) =
        t.frames[3]?.map fun frame => (frame.bindings, frame.parent) := by
  intro early again late h
  have value : ∀ n, Value.nil.Meets Value.InScope n := fun _ => Value.allProcedures_of_atom rfl rfl
  have roots := (Heap.After.empty.root (List.forall_mem_nil _)).root (List.forall_mem_nil _)
  have first : Heap.After [.made 2, .made 1, .made 0] early :=
    (roots.child 0 (by decide)).bind (by decide) rfl (value _)
  have cleared : Heap.After [.cleared 0, .made 2, .made 1, .made 0] (early.clear 2) :=
    first.clear 2 (by decide)
  have second : Heap.After [.cleared 0, .made 2, .made 1, .made 0] again :=
    (cleared.bind (by decide) rfl (value _)).bind (by decide) rfl (value _)
  have third : Heap.After [.made 3, .cleared 0, .made 2, .made 1, .made 0] late :=
    (second.child 2 (by decide)).bind (by decide) rfl (value _)
  have after : Heap.After [.made 4, .made 3, .cleared 0, .made 2, .made 1, .made 0] h :=
    (third.child 3 (by decide)).death 4
  obtain ⟨-, -, clears⟩ := clear_empties_frames_made_since after
  have store : h.store = ⟨#[⟨[], none, false⟩, ⟨[("b", .nil)], none, false⟩,
    ⟨[("y", .nil)], some 0, false⟩, ⟨[("z", .nil)], some 2, true⟩, ⟨[], some 3, true⟩], 0, #[]⟩ :=
    rfl
  have found : h.found 0 = [3, 0] := by decide +kernel
  rw [store] at clears ⊢
  obtain ⟨-, -, frames, -, others, ways, -, swept⟩ := clears 0 (by decide)
  obtain ⟨inner, foundInner, -, empties, -⟩ := frames 3 _ rfl
  obtain ⟨outer, foundOuter, -, -, keeps⟩ := frames 2 _ rfl
  refine ⟨after, found, ?_, ?_, ?_, (ways 4 (by decide)).2, swept 3 (.inl rfl)⟩
  · rw [foundInner, Option.map_some, empties (by decide)]
  · rw [foundOuter, Option.map_some, keeps (by decide)]
    rfl
  · rw [others 1 (by decide)]
    rfl

end SmallLisp
