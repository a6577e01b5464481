import SmallLisp.Fault

/-!
Computations that change a state and may fail.

The state that a computation has reached is kept however it ends, so what a failing program did up
to its failure stays done. A computation whose allowance of nested steps is used up is `exhausted`,
which is neither a value nor a fault.
-/

namespace SmallLisp

inductive Outcome (α : Type) where
  | value (a : α)
  | fault (cause : Fault)
  | exhausted

/-- A computation on a state. -/
def Run (σ α : Type) : Type := σ → Outcome α × σ

namespace Run

variable {σ α β : Type}

/-- Gives a value and leaves the state alone. -/
protected def pure (a : α) : Run σ α := fun s => (.value a, s)

/-- Runs on with the value of the first computation; otherwise ends as it ended. -/
protected def bind (x : Run σ α) (f : α → Run σ β) : Run σ β := fun s =>
  match x s with
  | (.value a, s) => f a s
  | (.fault cause, s) => (.fault cause, s)
  | (.exhausted, s) => (.exhausted, s)

instance : Monad (Run σ) where
  pure := Run.pure
  bind := Run.bind

def fail (cause : Fault) : Run σ α := fun s => (.fault cause, s)

/-- Ends without a result. -/
def exhaust : Run σ α := fun s => (.exhausted, s)

def read (f : σ → α) : Run σ α := fun s => (.value (f s), s)

def update (f : σ → σ) : Run σ Unit := fun s => (.value (), f s)

/-- Takes over a result that needs no state. -/
def ofExcept : Except Fault α → Run σ α
  | .ok a => Run.pure a
  | .error cause => fail cause

/-- Runs a computation for each element of a list, from left to right. -/
def each (f : α → Run σ β) : List α → Run σ (List β)
  | [] => pure []
  | a :: as => do
    let b ← f a
    let bs ← each f as
    pure (b :: bs)

@[simp] theorem pure_apply (a : α) (s : σ) : (pure a : Run σ α) s = (.value a, s) := rfl

theorem bind_apply (x : Run σ α) (f : α → Run σ β) (s : σ) :
    (x >>= f) s = match x s with
      | (.value a, s) => f a s
      | (.fault cause, s) => (.fault cause, s)
      | (.exhausted, s) => (.exhausted, s) := rfl

end Run

end SmallLisp
