import Mathlib.Data.List.Nodup
import SmallLisp.Proofs.Soundness

/-!
Calls of closures.

The body of a closure runs in a new frame that binds each parameter to the operand in its place. The
frame is empty at first, so a parameter could be found bound only if an earlier one had the same
name, and the closures of a session have no such parameters (`closures_take_any_operands`).
-/

namespace SmallLisp

open Run

/-! ### The frame of a call -/

/-- What the parameters are bound to: each to the operand in its place, or to `nil` if there is
none. -/
def parameterBindings (params : List String) (operands : List Value) : List (String × Value) :=
  params.mapIdx fun i name => (name, operands[i]?.getD .nil)

theorem parameterBindings_cons (name : String) (names : List String) (operands : List Value) :
    parameterBindings (name :: names) operands =
      (name, operands.headD .nil) :: parameterBindings names operands.tail := by
  simp [parameterBindings, List.mapIdx_cons, List.head?_eq_getElem?]

/-- Each parameter is bound once, in its order, however many operands there are. -/
theorem map_fst_parameterBindings (params : List String) (operands : List Value) :
    (parameterBindings params operands).map Prod.fst = params := by
  induction params generalizing operands with
  | nil => rfl
  | cons name names ih => rw [parameterBindings_cons, List.map_cons, ih]

/-- A parameter is bound to the operand in its place, and to `nil` if there is none. -/
theorem mem_parameterBindings {params : List String} {i : Nat} {name : String}
    (here : params[i]? = some name) (operands : List Value) :
    (name, operands[i]?.getD .nil) ∈ parameterBindings params operands := by
  obtain ⟨inside, same⟩ := List.getElem?_eq_some_iff.mp here
  exact List.mem_mapIdx.mpr ⟨i, inside, by rw [same]⟩

/-- The frame in which the body of a closure runs: below the frame it was made in, with the bindings
of the parameters and no others. -/
def callFrame (scope : FrameId) (params : List String) (operands : List Value) : Frame :=
  ⟨(parameterBindings params operands).reverse, some scope, true⟩

/-- A frame whose names differ from one another has each of its bindings. -/
theorem Frame.find?_of_mem {frame : Frame} (distinct : (frame.bindings.map Prod.fst).Nodup)
    {name : String} {v : Value} (bound : (name, v) ∈ frame.bindings) : frame.find? name = some v := by
  obtain ⟨before, after, split⟩ := List.append_of_mem bound
  refine List.lookup_eq_some_iff.mpr ⟨before, after, split, fun binding member => ?_⟩
  rw [split, List.map_append, List.map_cons] at distinct
  have apart := (List.nodup_append.mp distinct).2.2 _ (List.mem_map_of_mem member) name
    List.mem_cons_self
  exact bne_iff_ne.mpr (Ne.symm apart)

theorem callFrame_names {params : List String} (scope : FrameId) (operands : List Value) :
    (callFrame scope params operands).bindings.map Prod.fst = params.reverse := by
  rw [callFrame, List.map_reverse, map_fst_parameterBindings]

/-- In the frame of a call a parameter has the operand in its place, since no later one hides it. -/
theorem find?_callFrame {params : List String} (distinct : params.Nodup) {i : Nat} {name : String}
    (here : params[i]? = some name) (scope : FrameId) (operands : List Value) :
    (callFrame scope params operands).find? name = some (operands[i]?.getD .nil) := by
  refine Frame.find?_of_mem ?_ (List.mem_reverse.mpr (mem_parameterBindings here operands))
  rw [callFrame_names]
  exact List.nodup_reverse.mpr distinct

/-- The frame of a call binds nothing but parameters. -/
theorem find?_callFrame_of_not_mem {params : List String} {name : String} (other : name ∉ params)
    (scope : FrameId) (operands : List Value) :
    (callFrame scope params operands).find? name = none := by
  refine List.lookup_eq_none_iff.mpr fun binding member => bne_iff_ne.mpr ?_
  rintro rfl
  have named : binding.1 ∈ (callFrame scope params operands).bindings.map Prod.fst :=
    List.mem_map_of_mem member
  rw [callFrame_names] at named
  exact other (List.mem_reverse.mp named)

/-! ### Binding the parameters -/

namespace Store

def push (s : Store) (frame : Frame) : Store :=
  { s with frames := s.frames.push frame }

variable {s : Store} {frame : Frame} {name : String}

theorem frameFind?_push : (s.push frame).frameFind? name s.nextFrame = frame.find? name := by
  simp [frameFind?, push, nextFrame]

/-- Binding a name in the newest frame adds it to that frame. -/
theorem insert_push (v : Value) :
    (s.push frame).insert s.nextFrame name v =
      s.push { frame with bindings := (name, v) :: frame.bindings } := by
  have modified : ∀ f : Frame → Frame,
      (s.frames.push frame).modify s.frames.size f = s.frames.push (f frame) := by
    intro f
    refine Array.ext_getElem? fun i => ?_
    rw [Array.getElem?_modify, Array.getElem?_push, Array.getElem?_push]
    by_cases last : i = s.frames.size
    · simp [last]
    · simp [last, Ne.symm last]
  simp only [insert, push, nextFrame, modified]

theorem lookup?_push {v : Value} (found : frame.find? name = some v) :
    (s.push frame).lookup? s.nextFrame name = some v := by
  have newest : (s.push frame).frames[s.nextFrame]? = some frame := by simp [push, nextFrame]
  rw [lookup?, ancestry, ancestryUpTo, newest, List.findSome?_cons, frameFind?_push, found]

end Store

/-- Parameters that differ from one another and are not bound yet are bound one after the other. -/
theorem bindParameters_push {s : Store} {params : List String} (distinct : params.Nodup)
    (operands : List Value) {frame : Frame} (unbound : ∀ name ∈ params, frame.find? name = none) :
    bindParameters s.nextFrame params operands (s.push frame) =
      (.value (), s.push { frame with
        bindings := (parameterBindings params operands).reverse ++ frame.bindings }) := by
  -- The frame fills up on the way, so the induction is over any bindings it may have already.
  induction params generalizing operands frame with
  | nil => rfl
  | cons name names ih =>
    obtain ⟨fresh, distinct⟩ := List.nodup_cons.mp distinct
    obtain ⟨here, others⟩ := List.forall_mem_cons.mp unbound
    have absent : (s.push frame).binds s.nextFrame name = false := by
      rw [Store.binds, Store.frameFind?_push, here]
      rfl
    have still : ∀ other ∈ names, Frame.find?
        { frame with bindings := (name, operands.headD .nil) :: frame.bindings } other = none := by
      intro other member
      have differ : other ≠ name := by
        rintro rfl
        exact fresh member
      simpa [Frame.find?, List.lookup_cons, beq_false_of_ne differ] using others other member
    rw [bindParameters, bind_apply, bindName, absent, if_neg Bool.false_ne_true, Store.insert_push]
    refine (ih distinct operands.tail still).trans ?_
    simp [parameterBindings_cons]

section Apply

variable {params : List String} (distinct : params.Nodup) (scope : FrameId) (operands : List Value)
  (s : Store)

include distinct

/-- Binding the parameters one by one in a new frame comes to adding the frame of the call. -/
theorem bindParameters_addChild :
    bindParameters s.nextFrame params operands (s.addChild scope) =
      (.value (), s.push (callFrame scope params operands)) := by
  have empty : ∀ name ∈ params, Frame.find? ⟨[], some scope, true⟩ name = none := fun _ _ => rfl
  have bound := bindParameters_push (s := s) distinct operands empty
  rwa [List.append_nil] at bound

/-- Applying a closure is evaluating its body in the frame of the call. -/
theorem apply_closure (depth stamp : Nat) (body : Value) (e : FrameId) :
    apply depth (.closure stamp params body scope) operands e s =
      evaluate depth s.nextFrame body (s.push (callFrame scope params operands)) := by
  have bound := bindParameters_addChild distinct scope operands s
  simp only [apply, Evaluator.apply, bind_apply, newFrame, bound]

end Apply

/-! ### The closures of a session -/

/-- The value occurs in one that a frame binds, or in a procedure that expands a macro. -/
def Session.Contains (session : Session) (part : Value) : Prop :=
  (∃ (i : FrameId) (frame : Frame) (binding : String × Value),
    session.workspace.store.frames[i]? = some frame ∧ binding ∈ frame.bindings ∧
      part.OccursIn binding.2) ∨
  ∃ entry ∈ session.workspace.macros.entries, part.OccursIn entry.2

theorem Value.Sound.nodup {size stamp : Nat} {params : List String} {v body : Value} {scope : FrameId}
    (sound : v.Sound size) (occurs : (closure stamp params body scope).OccursIn v) : params.Nodup :=
  (sound _ rfl occurs).1

/-- No closure that a session holds has the same parameter twice. -/
theorem Session.Sound.nodup {session : Session} (sound : session.Sound) {stamp : Nat}
    {params : List String} {body : Value} {scope : FrameId}
    (contains : session.Contains (.closure stamp params body scope)) : params.Nodup := by
  rcases contains with ⟨i, frame, binding, present, member, occurs⟩ | ⟨entry, member, occurs⟩
  · exact (sound.workspace.store.values i frame present binding member).nodup occurs
  · exact (sound.workspace.macros entry member).nodup occurs

/-- Applying a closure never fails while its parameters are bound. After any lines, failing ones
included, the closures that occur in frames, macros and results have parameters that differ from one
another, and this is so wherever an evaluation or expansion is given up in the middle. Such a closure
takes operands of any number, whatever its frame sees: all its parameters are bound, and the body is
evaluated in a new frame below the frame of the closure that binds each parameter to the operand in
its place, to `nil` where operands are missing, and nothing else. -/
theorem closures_take_any_operands (lines : List String) :
    let session := Session.start.after lines
    (∀ stamp params body scope,
      (session.Contains (.closure stamp params body scope) ∨
        ∃ source v, (session.line source).1 = .value v ∧
          (Value.closure stamp params body scope).OccursIn v) → params.Nodup) ∧
    session.Sound ∧ (∀ stop depth, (evaluateUntil stop depth).Keeps) ∧
    (∀ stop depth e, (expandUntil stop depth e).Keeps e) ∧
    ∀ params : List String, params.Nodup → ∀ (scope : FrameId) (operands : List Value) (s : Store),
      let called := s.push (callFrame scope params operands)
      bindParameters s.nextFrame params operands (s.addChild scope) = (.value (), called) ∧
      (∀ depth stamp body e, apply depth (.closure stamp params body scope) operands e s =
        evaluate depth s.nextFrame body called) ∧
      (∀ (i : Nat) (name : String), params[i]? = some name →
        called.lookup? s.nextFrame name = some (operands[i]?.getD .nil)) ∧
      ∀ name, called.binds s.nextFrame name = true ↔ name ∈ params := by
  intro session
  have sound : session.Sound := Session.sound_after Session.sound_start lines
  refine ⟨?_, sound, evaluateUntil_keeps, fun stop depth e => expandUntil_keeps stop e depth, ?_⟩
  · rintro stamp params body scope (contains | ⟨source, v, result, occurs⟩)
    · exact sound.nodup contains
    · exact ((Session.line_sound sound source).2 v result).nodup occurs
  · intro params distinct scope operands s called
    refine ⟨bindParameters_addChild distinct scope operands s,
      fun depth stamp body e => apply_closure distinct scope operands s depth stamp body e, ?_, ?_⟩
    · intro i name here
      exact Store.lookup?_push (find?_callFrame distinct here scope operands)
    · intro name
      rw [Store.binds, Store.frameFind?_push]
      by_cases member : name ∈ params
      · obtain ⟨i, here⟩ := List.mem_iff_getElem?.mp member
        simp [find?_callFrame distinct here, member]
      · simp [find?_callFrame_of_not_mem member, member]

/-- A closure that a line gives takes one operand for two parameters, in a store in which the name of
the first is bound already. -/
theorem closures_take_any_operands_missing_operand :
    let closure := Value.closure 0 ["a", "b"] (.symbol "a") 0
    let s := Store.empty.addRoot [("a", .int 7)]
    let called := s.push (callFrame 0 ["a", "b"] [.int 1])
    (Session.start.line "(fn (a b) a)").1 = .value closure ∧ ["a", "b"].Nodup ∧
      s.lookup? 0 "a" = some (.int 7) ∧
      bindParameters 1 ["a", "b"] [.int 1] (s.addChild 0) = (.value (), called) ∧
      called.lookup? 1 "a" = some (.int 1) ∧ called.lookup? 1 "b" = some .nil := by
  intro closure s called
  let form := Value.list [.symbol "fn", .list [.symbol "a", .symbol "b"], .symbol "a"]
  have isRead : read "(fn (a b) a)".toList = .ok form := rfl
  let made : Workspace := ⟨{ Session.start.workspace.store with stamps := 1 }, .empty⟩
  have expands : ∀ more, expand (more + 2) 0 form Session.start.workspace =
      (.value (some form), Session.start.workspace) := fun _ => rfl
  have carried : Session.carryOut 0 form Session.start.workspace = (.value (some closure), made) :=
    Session.carryOut_eq_value 2 (by decide) expands fun _ => rfl
  have given : (Session.start.line "(fn (a b) a)").1 = .value closure := by
    simp only [Session.line, Session.start, isRead]
    exact congrArg (fun result => Session.resultOf result.1) carried
  have takes := closures_take_any_operands []
  have distinct := takes.1 0 ["a", "b"] (.symbol "a") 0 (.inr ⟨_, closure, given, .here⟩)
  obtain ⟨bound, -, finds, -⟩ := takes.2.2.2.2 ["a", "b"] distinct 0 [.int 1] s
  exact ⟨given, distinct, rfl, bound, finds 0 "a" rfl, finds 1 "b" rfl⟩

end SmallLisp
