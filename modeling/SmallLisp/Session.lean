import SmallLisp.Diagnostic
import SmallLisp.Expansion.Expand
import SmallLisp.Source.Reading

/-!
Sessions: a root frame and a macro table on which lines are carried out one after the other.

A line is read, expanded and evaluated. What it did before it failed stays done: names stay bound
and macros defined.
-/

namespace SmallLisp

/-- The number of forms that may be under way inside one another. -/
def Session.depth : Nat := 100000

/-- A root frame in a store, and the macros. -/
structure Session where
  workspace : Workspace
  root : FrameId

inductive LineResult where
  | value (v : Value)
  /-- Expansion left nothing to evaluate. -/
  | nothing
  | failed (cause : Failure)
  /-- The line nests too deep. -/
  | exhausted

namespace Session

/-- A session on a fresh root frame with the built-in procedures. -/
def start : Session :=
  ⟨⟨Store.empty.addRoot Store.builtinBindings, .empty⟩, Store.empty.nextFrame⟩

def names (s : Session) : List String :=
  s.workspace.store.names s.root

/-- Expands a form and evaluates what is left of it, in the frame `e`. -/
def carryOut (e : FrameId) (form : Value) : Run Workspace (Option Value) := do
  match ← expand depth e form with
  | none => pure none
  | some expanded => do
    let v ← Workspace.onStore (evaluate depth e expanded)
    pure (some v)

/-- The result of a line whose form ended this way. -/
def resultOf : Outcome (Option Value) → LineResult
  | .value (some v) => .value v
  | .value none => .nothing
  | .fault cause => .failed (.execution cause)
  | .exhausted => .exhausted

/-- Reads the first form of a line and carries it out. -/
def line : Session → String → LineResult × Session
  | ⟨workspace, root⟩, source =>
    match read source.toList with
    | .error e => (.failed (.source e), ⟨workspace, root⟩)
    | .ok form =>
      let (outcome, workspace) := carryOut root form workspace
      (resultOf outcome, ⟨workspace, root⟩)

/-- The lines emitted so far, and the session without them. -/
def takeEmitted (s : Session) : List String × Session :=
  let store := s.workspace.store
  (store.emitted.toList,
    { s with workspace := { s.workspace with store := { store with emitted := #[] } } })

end Session

end SmallLisp
