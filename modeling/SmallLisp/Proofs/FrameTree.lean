import Mathlib.Data.String.Basic
import Mathlib.Logic.Relation
import SmallLisp.Proofs.Calls

/-!
The frames of a session.

A session starts with a root frame. Every other frame is made below one that is there, namely the
one in which the applied closure was made, and that one was there when the closure was made. So all
frames stay in one tree, however closures are passed around and stored, and each frame sees its own
names and those of its parent (`frames_form_one_tree`). The states in question are all those that
elementary changes lead to (`Workspace.Evolves`), among them the states in the middle of evaluation
and expansion.
-/

namespace SmallLisp

open Run

/-! ### The way up from a frame and from its parent -/

namespace Store

variable {s : Store} {e parent root : FrameId} {frame : Frame}

/-- From a rooted frame, more steps than its number lead no further. -/
theorem Rooted.ancestryUpTo_of_lt (rooted : s.Rooted e) :
    ∀ {count : Nat}, e < count → s.ancestryUpTo count e = s.ancestry e := by
  induction rooted with
  | root found top =>
    rintro (_ | count) enough
    · cases enough
    · simp only [ancestry, ancestryUpTo, found, top]
  | @child e parent frame found higher older _ ih =>
    have climbs : ∀ {count : Nat}, parent < count →
        s.ancestryUpTo (count + 1) e = e :: s.ancestry parent := by
      intro count enough
      simp only [ancestryUpTo, found, higher, ih enough]
    rintro (_ | count) enough
    · cases enough
    · have fewer : parent < count := Nat.lt_of_lt_of_le older (Nat.le_of_lt_succ enough)
      exact (climbs fewer).trans (climbs older).symm

theorem ancestry_of_parent_eq_none (found : s.frames[e]? = some frame) (top : frame.parent = none) :
    s.ancestry e = [e] := by
  simp only [ancestry, ancestryUpTo, found, top]

/-- The way up from a frame goes on with the way up from its parent. -/
theorem Rooted.ancestry_eq_cons (rooted : s.Rooted e) (found : s.frames[e]? = some frame)
    (higher : frame.parent = some parent) : s.ancestry e = e :: s.ancestry parent := by
  obtain ⟨older, above⟩ := rooted.parent found higher
  rw [ancestry, ancestryUpTo, found]
  simp only [higher, above.ancestryUpTo_of_lt older]

/-- A child is one frame deeper than its parent. -/
theorem Rooted.depth_eq_succ (rooted : s.Rooted e) (found : s.frames[e]? = some frame)
    (higher : frame.parent = some parent) : s.depth e = s.depth parent + 1 := by
  rw [depth, rooted.ancestry_eq_cons found higher, List.length_cons, depth]

theorem depth_of_parent_eq_none (found : s.frames[e]? = some frame) (top : frame.parent = none) :
    s.depth e = 1 := by
  rw [depth, ancestry_of_parent_eq_none found top, List.length_singleton]

theorem rootOf_of_parent_eq_none (found : s.frames[e]? = some frame) (top : frame.parent = none) :
    s.rootOf e = e := by
  rw [rootOf, ancestry_of_parent_eq_none found top, List.getLastD_cons, List.getLastD_nil]

theorem Rooted.ancestry_ne_nil (rooted : s.Rooted e) : s.ancestry e ≠ [] := by
  obtain ⟨frame, found⟩ := rooted.frame
  rw [ancestry, ancestryUpTo, found]
  exact List.cons_ne_nil _ _

/-- A child has the root of its parent. -/
theorem Rooted.rootOf_eq_parent (rooted : s.Rooted e) (found : s.frames[e]? = some frame)
    (higher : frame.parent = some parent) : s.rootOf e = s.rootOf parent := by
  have some_above := (rooted.parent found higher).2.ancestry_ne_nil
  rw [rootOf, rooted.ancestry_eq_cons found higher, List.getLastD_cons, rootOf]
  simp only [List.getLastD_eq_getLast?, List.getLast?_eq_some_getLast some_above, Option.getD_some]

theorem lookup?_of_parent_eq_none (found : s.frames[e]? = some frame) (top : frame.parent = none)
    (name : String) : s.lookup? e name = frame.find? name := by
  simp [lookup?, ancestry_of_parent_eq_none found top, frameFind?, found]

/-- A name that a frame does not bind is looked for from its parent. -/
theorem Rooted.lookup?_eq_or (rooted : s.Rooted e) (found : s.frames[e]? = some frame)
    (higher : frame.parent = some parent) (name : String) :
    s.lookup? e name = (frame.find? name).or (s.lookup? parent name) := by
  have own : s.frameFind? name e = frame.find? name := by simp [frameFind?, found]
  rw [lookup?, rooted.ancestry_eq_cons found higher, List.findSome?_cons, own, lookup?]
  cases frame.find? name <;> rfl

/-! ### One tree -/

/-- The frames form a tree below `root`, and each of them binds its names once. -/
structure Tree (root : FrameId) (s : Store) : Prop where
  rooted : ∀ e < s.frames.size, s.Rooted e
  top : ∃ frame, s.frames[root]? = some frame ∧ frame.parent = none
  only : ∀ (e : FrameId) (frame : Frame), s.frames[e]? = some frame → frame.parent = none → e = root
  distinct : ∀ (e : FrameId) (frame : Frame), s.frames[e]? = some frame →
    (frame.bindings.map Prod.fst).Nodup

/-- A running program leaves the tree a tree: new frames are children, and no name is bound twice.
-/
theorem Tree.change {P : Nat → Value → Prop} {t : Store} (tree : s.Tree root)
    (change : s.Change P t) : t.Tree root where
  rooted := change.rooted tree.rooted
  top := by
    obtain ⟨frame, found, none⟩ := tree.top
    obtain ⟨own, grows⟩ := change.grows
    obtain ⟨later, foundLater, same⟩ := grows.keepsParents root frame found
    exact ⟨later, foundLater, same.trans none⟩
  only e frame found none := by
    rcases change.frame_inv found with same | ⟨old, _, _, before, -, -, rfl⟩ | ⟨-, _, -, rfl⟩
    · exact tree.only e frame same none
    · exact tree.only e old before none
    · cases none
  distinct e frame found := by
    rcases change.frame_inv found with same | ⟨old, name, _, before, fresh, -, rfl⟩ | ⟨-, _, -, rfl⟩
    · exact tree.distinct e frame same
    · refine List.nodup_cons.mpr ⟨fun member => ?_, tree.distinct e old before⟩
      obtain ⟨binding, bound, rfl⟩ := List.mem_map.mp member
      have other := List.lookup_eq_none_iff.mp fresh binding bound
      simp at other
    · exact List.nodup_nil

/-- The root is above every frame. -/
theorem Tree.above (tree : s.Tree root) (inside : e < s.frames.size) : s.Above root e := by
  have rooted := tree.rooted e inside
  clear inside
  induction rooted with
  | @root e frame found top =>
    obtain rfl := tree.only e frame found top
    exact .here found
  | child found higher _ _ ih => exact .parent found higher ih

theorem Tree.rootOf_eq (tree : s.Tree root) (inside : e < s.frames.size) : s.rootOf e = root := by
  have rooted := tree.rooted e inside
  clear inside
  induction rooted with
  | @root e frame found top =>
    rw [rootOf_of_parent_eq_none found top]
    exact tree.only e frame found top
  | child found higher older above ih =>
    rw [(Rooted.child found higher older above).rootOf_eq_parent found higher, ih]

def IsParent (s : Store) (parent e : FrameId) : Prop :=
  ∃ frame, s.frames[e]? = some frame ∧ frame.parent = some parent

/-- Going from parent to parent comes to an end. -/
theorem Tree.wellFounded_isParent (tree : s.Tree root) : WellFounded s.IsParent := by
  refine Subrelation.wf (fun {parent e} isParent => ?_) Nat.lt_wfRel.wf
  obtain ⟨frame, found, higher⟩ := isParent
  exact ((tree.rooted e (Array.getElem?_eq_some_iff.mp found).1).parent found higher).1

/-! ### The names of a frame -/

/-- A frame binds the names that stand in its bindings. -/
theorem binds_iff {name : String} :
    s.binds e name = true ↔ ∃ frame v, s.frames[e]? = some frame ∧ (name, v) ∈ frame.bindings := by
  unfold binds frameFind?
  cases s.frames[e]? with
  | none => simp
  | some frame => simp [Frame.find?, List.lookup_isSome_iff]

/-- The names of a frame are those it binds. -/
theorem mem_names_iff {name : String} : name ∈ s.names e ↔ s.binds e name = true := by
  rw [binds_iff]
  unfold names
  cases s.frames[e]? with
  | none => simp
  | some frame =>
    simp only [Option.map_some, Option.getD_some, Frame.names, (Text.ascending_perm _).mem_iff]
    simp

/-- Names are listed ascending and each of them once. -/
theorem Tree.names_pairwise (tree : s.Tree root) (e : FrameId) : (s.names e).Pairwise (· < ·) := by
  unfold names
  cases found : s.frames[e]? with
  | none => exact .nil
  | some frame =>
    have distinct : frame.names.Nodup :=
      (Text.ascending_perm _).nodup_iff.mpr (tree.distinct e frame found)
    exact (Text.ascending_pairwise _).imp₂ (fun _ _ => lt_of_le_of_ne) distinct

end Store

/-! ### All states that programs come to -/

/-- With `size` frames, the frame that a closure was made in is there. -/
def Value.InScope (size : Nat) : Value → Prop
  | .closure _ _ _ scope => scope < size
  | _ => True

theorem Value.inScope_lasting : Lasting InScope where
  later {n m f} grown inside := by
    cases f with
    | closure => exact Nat.lt_of_lt_of_le inside grown
    | _ => trivial
  inside inside := inside
  made _ inside _ _ := inside

namespace Workspace

variable {w w' : Workspace} {root : FrameId}

/-- The frames that closures in frames and macros were made in are there. -/
structure InScope (w : Workspace) : Prop where
  values : w.store.AllValues (Value.Meets Value.InScope w.store.frames.size)
  macros : ∀ entry ∈ w.macros.entries, entry.2.Meets Value.InScope w.store.frames.size

/-- No change binds a closure to a frame that is not there. -/
theorem Change.inScope (change : w.Change Value.InScope w') (inScope : w.InScope) : w'.InScope where
  values := by
    cases change with
    | store change => exact change.allValues Value.inScope_lasting inScope.values
    | define => exact inScope.values
  macros := change.macros Value.inScope_lasting inScope.macros

/-- Changes as programs make them, any number of them, lead from `w` to `w'`. -/
def Evolves (w w' : Workspace) : Prop :=
  Relation.ReflTransGen (Change Value.InScope) w w'

theorem Evolves.inScope (evolves : w.Evolves w') (inScope : w.InScope) : w'.InScope := by
  induction evolves with
  | refl => exact inScope
  | tail _ change ih => exact change.inScope ih

/-- However long programs run, the frames form one tree. -/
theorem Evolves.tree (evolves : w.Evolves w') (tree : w.store.Tree root) : w'.store.Tree root := by
  induction evolves with
  | refl => exact tree
  | tail _ change ih =>
    cases change with
    | store change => exact ih.change change
    | define => exact ih

/-- Evaluation and expansion do nothing but such changes. -/
theorem evolves_upkeep (inScope : w.InScope) : Upkeep Value.InScope w.Evolves where
  toLasting := Value.inScope_lasting
  values evolves := (evolves.inScope inScope).values
  macros evolves := (evolves.inScope inScope).macros
  change evolves change := .tail evolves change

/-- The frame of every closure in a session is there, also when the call that made it is over. -/
theorem InScope.lt_of_contains (inScope : w.InScope) {stamp : Nat}
    {params : List String} {body : Value} {scope : FrameId}
    (contains : (Session.mk w root).Contains (.closure stamp params body scope)) :
    scope < w.store.frames.size := by
  rcases contains with ⟨i, frame, binding, present, member, occurs⟩ | ⟨entry, member, occurs⟩
  · exact inScope.values i frame present binding member _ rfl occurs
  · exact inScope.macros entry member _ rfl occurs

end Workspace

/-- No two built-in procedures have the same name. -/
theorem Store.builtinBindings_nodup : (builtinBindings.map Prod.fst).Nodup := by
  rw [builtinBindings, List.map_map]
  exact List.Nodup.map (fun _ _ => Builtin.name_injective) (by decide)

namespace Session

/-- A fresh session has its root frame alone. -/
theorem start_tree : start.workspace.store.Tree start.root where
  rooted := sound_start.workspace.store.rooted
  top := ⟨_, rfl, rfl⟩
  only e frame found _ := Nat.lt_one_iff.mp (Array.getElem?_eq_some_iff.mp found).1
  distinct e frame found := by
    obtain rfl : e = 0 := Nat.lt_one_iff.mp (Array.getElem?_eq_some_iff.mp found).1
    cases found
    exact Store.builtinBindings_nodup

theorem start_inScope : start.workspace.InScope where
  values := by
    refine sound_start.workspace.store.values.mono fun v sound => sound.mono fun f proper => ?_
    cases f with
    | closure => exact proper.2
    | _ => trivial
  macros := by simp [start, MacroTable.empty]

theorem after_root (session : Session) (lines : List String) :
    (session.after lines).root = session.root := by
  induction lines generalizing session with
  | nil => rfl
  | cons source lines ih => exact (ih _).trans (line_grows session source).1

end Session

/-- A marker that is bound to a procedure is a call of it without operands. -/
theorem evaluate_marker {s : Store} {e : FrameId} {name : String} {f : Value}
    (bound : s.lookup? e name = some f) (depth : Nat) :
    evaluate (depth + 1) e (.marker name) s = apply depth f [] e s := by
  have found : find e name s = (.value f, s) := by rw [find, bound]
  simp only [evaluate, Evaluator.step]
  rw [bind_apply, found]
  rfl

/-- All code of a session lives in one tree of frames. Lines and, within them, the steps of
evaluation and expansion do nothing but make elementary changes. In all states that such changes
lead to, the way up from every frame is finite and ends at the root of the session, a frame is one
deeper than its parent and sees what the parent sees unless it binds the name itself, and the frames
that closures were made in are there. So the built-in `#:g`, called in whatever frame and by
whatever code, emits the names that the root binds then, ascending and each of them once, and
besides blank lines nothing else is ever emitted. -/
theorem frames_form_one_tree (lines : List String) :
    let root := Session.start.root
    let start := Session.start.workspace
    let session := Session.start.after lines
    session.root = root ∧ start.Evolves session.workspace ∧
    (∀ source v, (session.line source).1 = .value v → ∀ stamp params body scope,
      (Value.closure stamp params body scope).OccursIn v →
        scope < (session.line source).2.workspace.store.frames.size) ∧
    ∀ w, start.Evolves w →
      let s := w.store
      (∀ stop depth e form, e < s.frames.size → form.Meets Value.InScope s.frames.size →
        start.Evolves ⟨(evaluateUntil stop depth e form s).2, w.macros⟩) ∧
      (∀ stop depth e form, e < s.frames.size → form.Meets Value.InScope s.frames.size →
        start.Evolves (expandUntil stop depth e form w).2) ∧
      (∃ frame, s.frames[root]? = some frame ∧ frame.parent = none) ∧
      (∀ e < s.frames.size, s.Above root e ∧ s.rootOf e = root) ∧
      (∀ e frame, s.frames[e]? = some frame → frame.parent = none →
        e = root ∧ s.depth e = 1 ∧ ∀ name, s.lookup? e name = frame.find? name) ∧
      (∀ e frame parent, s.frames[e]? = some frame → frame.parent = some parent →
        parent < s.frames.size ∧ s.depth e = s.depth parent + 1 ∧
          ∀ name, s.lookup? e name = (frame.find? name).or (s.lookup? parent name)) ∧
      WellFounded s.IsParent ∧
      (∀ stamp params body scope,
        (Session.mk w root).Contains (.closure stamp params body scope) →
          scope < s.frames.size) ∧
      (s.names root).Pairwise (· < ·) ∧
      (∀ name, name ∈ s.names root ↔ s.binds root name = true) ∧
      (∀ name, s.binds root name = true ↔
        ∃ frame v, s.frames[root]? = some frame ∧ (name, v) ∈ frame.bindings) ∧
      (∀ depth operands, ∀ e < s.frames.size, apply depth (.builtin .globals) operands e s =
        (.value .nil,
          { s with emitted := s.emitted.push (String.intercalate " " (s.names root)) })) ∧
      (∀ depth, ∀ e < s.frames.size, s.lookup? e "#:g" = some (.builtin .globals) →
        evaluate (depth + 1) e (.marker "#:g") s =
          (.value .nil,
            { s with emitted := s.emitted.push (String.intercalate " " (s.names root)) })) ∧
      ∀ w', w.Change Value.InScope w' → w'.store.emitted = s.emitted ∨
        w'.store.emitted = s.emitted.push "" ∨
        w'.store.emitted = s.emitted.push (String.intercalate " " (s.names root)) := by
  intro root start session
  have upkeep := Workspace.evolves_upkeep Session.start_inScope
  have inside : root < start.store.frames.size := Session.sound_start.root
  obtain ⟨reached, present⟩ := Session.after_upheld upkeep .refl inside lines
  refine ⟨Session.start.after_root lines, reached, ?_, ?_⟩
  · intro source v result stamp params body scope occurs
    exact (Session.line_upheld upkeep reached present source).2.2 v result _ rfl occurs
  intro w evolves s
  have tree : s.Tree root := evolves.tree Session.start_tree
  have rootLine : ∀ e < s.frames.size,
      s.rootLine e = String.intercalate " " (s.names root) := by
    intro e inside
    rw [Store.rootLine, tree.rootOf_eq inside]
  have globals : ∀ depth operands, ∀ e < s.frames.size,
      apply depth (.builtin .globals) operands e s =
        (.value .nil,
          { s with emitted := s.emitted.push (String.intercalate " " (s.names root)) }) := by
    intro depth operands e inside
    rw [← rootLine e inside]
    rfl
  refine ⟨?_, ?_, tree.top, ?_, ?_, ?_, tree.wellFounded_isParent, ?_, tree.names_pairwise root,
    fun _ => Store.mem_names_iff, fun _ => Store.binds_iff, globals, ?_, ?_⟩
  · intro stop depth e form inside meets
    exact (evaluateUntil_upholds (upkeep.onStore w.macros) stop depth inside meets s evolves
      (Nat.le_refl _)).1
  · intro stop depth e form inside meets
    exact (expandUntil_upholds upkeep stop e depth inside meets w evolves (Nat.le_refl _)).1
  · intro e inside
    exact ⟨tree.above inside, tree.rootOf_eq inside⟩
  · intro e frame found top
    exact ⟨tree.only e frame found top, Store.depth_of_parent_eq_none found top,
      Store.lookup?_of_parent_eq_none found top⟩
  · intro e frame parent found higher
    have inside : e < s.frames.size := (Array.getElem?_eq_some_iff.mp found).1
    have rooted := tree.rooted e inside
    exact ⟨Nat.lt_trans (rooted.parent found higher).1 inside, rooted.depth_eq_succ found higher,
      rooted.lookup?_eq_or found higher⟩
  · intro stamp params body scope contains
    exact (evolves.inScope Session.start_inScope).lt_of_contains contains
  · intro depth e inside bound
    rw [evaluate_marker bound]
    exact globals depth [] e inside
  · intro w' change
    cases change with
    | store change =>
      rcases change.emitted_inv with same | blank | ⟨e, inside, names⟩
      · exact .inl same
      · exact .inr (.inl blank)
      · rw [rootLine e inside] at names
        exact .inr (.inr names)
    | define => exact .inl rfl

/-- A closure outlives the call that made it: it is bound in the root, and the frame of the call is
still there, below the root. The names of the root are emitted from that frame too. -/
theorem frames_form_one_tree_escaped_closure :
    let closure := Value.closure 1 [] (.symbol "x") 1
    let session := Session.start.after ["(bind f ((fn (x) (fn () x)) 1))"]
    let s := session.workspace.store
    session.Contains closure ∧ 1 < s.frames.size ∧ s.Above 0 1 ∧ s.depth 1 = 2 ∧
      s.lookup? 1 "x" = some (.int 1) ∧ s.lookup? 1 "f" = some closure ∧
      "f" ∈ s.names 0 ∧ "x" ∉ s.names 0 ∧
      apply 7 (.builtin .globals) [] 1 s =
        (.value .nil, { s with emitted := #[String.intercalate " " (s.names 0)] }) ∧
      evaluate 7 1 (.marker "#:g") s =
        (.value .nil, { s with emitted := #[String.intercalate " " (s.names 0)] }) := by
  intro closure
  let inner := Value.list [.symbol "fn", .list [], .symbol "x"]
  let outer := Value.list [.symbol "fn", .list [.symbol "x"], inner]
  let form := Value.list [.symbol "bind", .symbol "f", .list [outer, .int 1]]
  let called := (Session.start.workspace.store.addChild 0).insert 1 "x" (.int 1)
  let bound : Workspace := ⟨{ called.insert 0 "f" closure with stamps := 2 }, .empty⟩
  have isRead : read "(bind f ((fn (x) (fn () x)) 1))".toList = .ok form := rfl
  have expands : ∀ more, expand (more + 5) 0 form Session.start.workspace =
      (.value (some form), Session.start.workspace) := fun _ => rfl
  have carried : Session.carryOut 0 form Session.start.workspace = (.value (some closure), bound) :=
    Session.carryOut_eq_value 5 (by decide) expands fun _ => rfl
  have reached : Session.start.after ["(bind f ((fn (x) (fn () x)) 1))"] = ⟨bound, 0⟩ := by
    simp only [Session.after, List.foldl, Session.line, Session.start, isRead]
    exact congrArg (fun result => Session.mk result.2 0) carried
  have main := frames_form_one_tree ["(bind f ((fn (x) (fn () x)) 1))"]
  rw [reached] at main ⊢
  obtain ⟨-, evolves, -, states⟩ := main
  obtain ⟨-, -, -, above, -, child, -, captured, -, names, -, globals, marked,
    -⟩ := states bound evolves
  have contains : (Session.mk bound 0).Contains closure :=
    .inl ⟨0, _, ("f", closure), rfl, List.mem_cons_self, .here⟩
  have inside : 1 < bound.store.frames.size := captured 1 [] (.symbol "x") 1 contains
  obtain ⟨-, deeper, sees⟩ := child 1 _ 0 rfl rfl
  refine ⟨contains, inside, (above 1 inside).1, deeper, sees "x", sees "f", ?_, ?_, ?_, ?_⟩
  · exact (names "f").mpr rfl
  · intro member
    have binds := (names "x").mp member
    cases binds
  · exact globals 7 [] 1 inside
  · exact marked 6 1 inside rfl

end SmallLisp
