import SmallLisp.Text.Ascending
import SmallLisp.Value.Basic

/-!
The store: all frames that were ever made, the stamps given to closures, and the lines emitted.

A frame holds bindings and the number of its parent; a frame without a parent is a root. Parents are
older than their children, so going from a frame to its parent ends at a root: `Store.ancestry` lists
the frames on this way, and a name is looked up in them in order. Names are never rebound in a frame;
bindings go away only when a frame is cleared.
-/

namespace SmallLisp

/-- A frame of bindings, the newest first. -/
structure Frame where
  bindings : List (String × Value)
  parent : Option FrameId
  /-- Whether the next clearing under the same root empties this frame. -/
  registered : Bool

def Frame.find? (frame : Frame) (name : String) : Option Value :=
  frame.bindings.lookup name

/-- The names a frame binds, ascending by code points. -/
def Frame.names (frame : Frame) : List String :=
  Text.ascending (frame.bindings.map Prod.fst)

/-- All frames, the number of closures made, and the lines emitted so far. -/
structure Store where
  frames : Array Frame
  stamps : Nat
  emitted : Array String

namespace Store

def empty : Store := ⟨#[], 0, #[]⟩

/-- The frame `e`, its parent, its parent's parent and so on, at most `count` of them. -/
def ancestryUpTo (s : Store) : Nat → FrameId → List FrameId
  | 0, _ => []
  | count + 1, e =>
    match s.frames[e]? with
    | none => []
    | some frame =>
      e :: match frame.parent with
        | none => []
        | some parent => s.ancestryUpTo count parent

/-- The way up depends on nothing but the parents of frames. -/
theorem ancestryUpTo_congr {s t : Store}
    (same : ∀ i : FrameId, s.frames[i]?.map Frame.parent = t.frames[i]?.map Frame.parent)
    (count : Nat) (e : FrameId) : s.ancestryUpTo count e = t.ancestryUpTo count e := by
  induction count generalizing e with
  | zero => rfl
  | succ count ih =>
    have parents := same e
    unfold ancestryUpTo
    cases left : s.frames[e]? with
    | none =>
      rw [left, Option.map_none, eq_comm, Option.map_eq_none_iff] at parents
      rw [parents]
    | some frame =>
      rw [left, Option.map_some, eq_comm, Option.map_eq_some_iff] at parents
      obtain ⟨other, right, sameParent⟩ := parents
      simp only [right, sameParent, ih]

/-- The frames from `e` up to its root. Parents have smaller numbers, so `e + 1` steps suffice. -/
def ancestry (s : Store) (e : FrameId) : List FrameId :=
  s.ancestryUpTo (e + 1) e

def frameFind? (s : Store) (name : String) (e : FrameId) : Option Value :=
  s.frames[e]?.bind (·.find? name)

def binds (s : Store) (e : FrameId) (name : String) : Bool :=
  (s.frameFind? name e).isSome

/-- The value of a name as seen from a frame: that of the nearest frame that binds it. -/
def lookup? (s : Store) (e : FrameId) (name : String) : Option Value :=
  (s.ancestry e).findSome? (s.frameFind? name)

def isBound (s : Store) (e : FrameId) (name : String) : Bool :=
  (s.lookup? e name).isSome

/-- The number of frames from `e` up to its root, both counted. -/
def depth (s : Store) (e : FrameId) : Nat :=
  (s.ancestry e).length

def rootOf (s : Store) (e : FrameId) : FrameId :=
  (s.ancestry e).getLastD e

def names (s : Store) (e : FrameId) : List String :=
  (s.frames[e]?.map Frame.names).getD []

def nextFrame (s : Store) : FrameId :=
  s.frames.size

def addRoot (s : Store) (bindings : List (String × Value)) : Store :=
  { s with frames := s.frames.push ⟨bindings, none, false⟩ }

def addChild (s : Store) (parent : FrameId) : Store :=
  { s with frames := s.frames.push ⟨[], some parent, true⟩ }

/-- Binds a name in a frame, whether or not it is bound there. -/
def insert (s : Store) (e : FrameId) (name : String) (v : Value) : Store :=
  { s with frames := s.frames.modify e fun frame =>
      { frame with bindings := (name, v) :: frame.bindings } }

def emit (s : Store) (line : String) : Store :=
  { s with emitted := s.emitted.push line }

/-- Whether clearing `e` empties the frame `i`: the frame itself, and all frames made below the same
root since that root was last cleared. -/
def isCleared (s : Store) (e i : FrameId) (frame : Frame) : Bool :=
  i == e || (frame.registered && s.rootOf i == s.rootOf e)

/-- Empties a frame and all frames made below the same root since the last time. -/
def clear (s : Store) (e : FrameId) : Store :=
  { s with frames := s.frames.mapIdx fun i frame =>
      if s.isCleared e i frame then { frame with bindings := [], registered := false } else frame }

/-- The bindings of a root on which programs run. -/
def builtinBindings : List (String × Value) :=
  Builtin.all.map fun b => (b.name, .builtin b)

end Store

end SmallLisp
