import Mathlib.Data.List.Forall2
import Mathlib.Order.Defs.Unbundled
import SmallLisp.Run

/-!
Laws of computations that hold for every state.

A computation that ends with a value has a history: `Run.bind_eq_value_iff` and its companions give
it back step by step. What a computation does to the state, however it ends, is said by `Run.Moves`:
it takes every state to one in a given relation to it, and for a preorder this is closed under
sequencing. `Run.Rests` says that one particular state is left alone, and `Run.Keeps` that good states
stay good, where the values they hold may depend on how far the state has grown.
-/

namespace SmallLisp.Run

variable {σ α β : Type}

/-! ### How a value came about -/

/-- A value at the end means a value in between. -/
theorem bind_eq_value_iff {x : Run σ α} {f : α → Run σ β} {s t : σ} {b : β} :
    (x >>= f) s = (.value b, t) ↔ ∃ a u, x s = (.value a, u) ∧ f a u = (.value b, t) := by
  rw [bind_apply]
  rcases x s with ⟨a | cause | _, u⟩
  · constructor
    · intro ran
      exact ⟨a, u, rfl, ran⟩
    · rintro ⟨a', u', same, ran⟩
      cases same
      exact ran
  · simp
  · simp

theorem pure_eq_value_iff {a b : α} {s t : σ} :
    (pure a : Run σ α) s = (.value b, t) ↔ a = b ∧ s = t := by
  simp

theorem ofExcept_eq_value_iff {r : Except Fault α} {s t : σ} {a : α} :
    (ofExcept r : Run σ α) s = (.value a, t) ↔ r = .ok a ∧ s = t := by
  cases r <;> simp [ofExcept, Run.pure, fail]

theorem each_cons (f : α → Run σ β) (a : α) (as : List α) :
    each f (a :: as) = f a >>= fun b => each f as >>= fun bs => pure (b :: bs) := rfl

/-- A list is gone through from left to right. -/
theorem each_cons_eq_value_iff {f : α → Run σ β} {a : α} {as : List α} {bs : List β} {s t : σ} :
    each f (a :: as) s = (.value bs, t) ↔
      ∃ b u rest, f a s = (.value b, u) ∧ each f as u = (.value rest, t) ∧ bs = b :: rest := by
  simp only [each_cons, bind_eq_value_iff, pure_eq_value_iff]
  constructor
  · rintro ⟨b, u, first, rest, v, others, rfl, rfl⟩
    exact ⟨b, u, rest, first, others, rfl⟩
  · rintro ⟨b, u, rest, first, others, rfl⟩
    exact ⟨b, u, first, rest, t, others, rfl, rfl⟩

/-- A value that is passed on as it is makes no difference. -/
theorem bind_pure (x : Run σ α) : x >>= pure = x := by
  funext s
  rw [bind_apply]
  rcases x s with ⟨a | cause | _, t⟩ <;> rfl

/-! ### How a computation fails -/

/-- Wherever it starts, a fault that the computation ends with satisfies `P`. -/
def Raises (P : Fault → Prop) (x : Run σ α) : Prop :=
  ∀ s cause t, x s = (.fault cause, t) → P cause

section Raises

variable {P : Fault → Prop}

theorem raises_pure (a : α) : Raises P (pure a : Run σ α) := by
  intro s cause t ran
  cases ran

theorem raises_fail {cause : Fault} (holds : P cause) : Raises P (fail cause : Run σ α) := by
  intro s cause' t ran
  cases ran
  exact holds

theorem raises_exhaust : Raises P (exhaust : Run σ α) := by
  intro s cause t ran
  cases ran

theorem raises_ofExcept {r : Except Fault α} (holds : ∀ cause, r = .error cause → P cause) :
    Raises P (ofExcept r : Run σ α) := by
  cases r with
  | ok a => exact raises_pure a
  | error cause => exact raises_fail (holds cause rfl)

/-- A fault of the whole is one of its parts. -/
theorem Raises.bind {x : Run σ α} {f : α → Run σ β} (first : Raises P x)
    (next : ∀ a, Raises P (f a)) : Raises P (x >>= f) := by
  intro s cause t ran
  rw [bind_apply] at ran
  rcases here : x s with ⟨a | cause' | _, u⟩ <;> rw [here] at ran
  · exact next a u cause t ran
  · cases ran
    exact first s cause t here
  · cases ran

theorem raises_each {f : α → Run σ β} (raises : ∀ a, Raises P (f a)) :
    ∀ as, Raises P (each f as)
  | [] => raises_pure []
  | a :: as => (raises a).bind fun _ => (raises_each raises as).bind fun _ => raises_pure _

end Raises

/-! ### What a computation does to the state -/

/-- Wherever it starts and however it ends, the computation takes the state to one in the relation
`R` to it. -/
def Moves (R : σ → σ → Prop) (x : Run σ α) : Prop :=
  ∀ s, R s (x s).2

section Preorder

variable {R : σ → σ → Prop} [IsPreorder σ R]

theorem moves_pure (a : α) : Moves R (pure a : Run σ α) :=
  fun s => refl_of R s

theorem moves_fail (cause : Fault) : Moves R (fail cause : Run σ α) :=
  fun s => refl_of R s

theorem moves_exhaust : Moves R (exhaust : Run σ α) :=
  fun s => refl_of R s

theorem moves_read (f : σ → α) : Moves R (read f) :=
  fun s => refl_of R s

theorem moves_ofExcept (r : Except Fault α) : Moves R (ofExcept r : Run σ α) := by
  cases r with
  | ok a => exact moves_pure a
  | error cause => exact moves_fail cause

/-- As the relation is transitive, moves are made one after the other. -/
theorem Moves.bind {x : Run σ α} {f : α → Run σ β} (first : Moves R x)
    (next : ∀ a, Moves R (f a)) : Moves R (x >>= f) := by
  intro s
  have moved := first s
  rw [bind_apply]
  rcases ran : x s with ⟨a | cause | _, u⟩ <;> rw [ran] at moved
  · exact trans_of R moved (next a u)
  · exact moved
  · exact moved

theorem moves_each {f : α → Run σ β} (moves : ∀ a, Moves R (f a)) :
    ∀ as, Moves R (each f as)
  | [] => moves_pure []
  | a :: as => (moves a).bind fun _ => (moves_each moves as).bind fun _ => moves_pure _

end Preorder

/-! ### Computations that leave a state alone -/

/-- The computation leaves the state `s` alone, and a value it ends with satisfies `P`. -/
def Rests (s : σ) (P : α → Prop) (x : Run σ α) : Prop :=
  (x s).2 = s ∧ ∀ a, (x s).1 = .value a → P a

section Rests

variable {s : σ} {P : α → Prop} {Q : β → Prop}

/-- A computation that rests returns with the state it was given. -/
theorem Rests.of_eq_value {x : Run σ α} {a : α} {t : σ} (rests : Rests s P x)
    (ran : x s = (.value a, t)) : t = s ∧ P a := by
  obtain ⟨same, holds⟩ := rests
  rw [ran] at same holds
  exact ⟨same, holds a rfl⟩

/-- A computation that leaves the state alone gives its value to the next one in the same state. -/
theorem Rests.of_bind_eq_value {x : Run σ α} {f : α → Run σ β} {b : β} {t : σ} (rests : Rests s P x)
    (ran : (x >>= f) s = (.value b, t)) :
    ∃ a, P a ∧ x s = (.value a, s) ∧ f a s = (.value b, t) := by
  obtain ⟨a, u, first, last⟩ := bind_eq_value_iff.mp ran
  obtain ⟨same, holds⟩ := rests.of_eq_value first
  rw [same] at first last
  exact ⟨a, holds, first, last⟩

theorem rests_pure {a : α} (holds : P a) : Rests s P (pure a) := by
  refine ⟨rfl, fun b same => ?_⟩
  cases same
  exact holds

theorem rests_fail (cause : Fault) : Rests s P (fail cause : Run σ α) :=
  ⟨rfl, fun _ same => nomatch same⟩

theorem rests_exhaust : Rests s P (exhaust : Run σ α) :=
  ⟨rfl, fun _ same => nomatch same⟩

theorem rests_ofExcept (r : Except Fault α) : Rests s (fun _ => True) (ofExcept r : Run σ α) := by
  cases r with
  | ok a => exact rests_pure trivial
  | error cause => exact rests_fail cause

/-- What follows a computation that rests finds the same state. -/
theorem Rests.bind {x : Run σ α} {f : α → Run σ β} (first : Rests s P x)
    (next : ∀ a, P a → Rests s Q (f a)) : Rests s Q (x >>= f) := by
  obtain ⟨same, holds⟩ := first
  unfold Rests
  rw [bind_apply]
  rcases ran : x s with ⟨a | cause | _, u⟩ <;> rw [ran] at same holds <;> cases same
  · exact next a (holds a rfl)
  · exact ⟨rfl, fun _ same => nomatch same⟩
  · exact ⟨rfl, fun _ same => nomatch same⟩

theorem rests_each {f : α → Run σ β} :
    ∀ as, (∀ a ∈ as, Rests s Q (f a)) → Rests s (fun bs => ∀ b ∈ bs, Q b) (each f as)
  | [], _ => rests_pure (by simp)
  | a :: as, rests => by
    refine (rests a List.mem_cons_self).bind fun b first => ?_
    refine (rests_each as fun a member => rests a (List.mem_cons_of_mem _ member)).bind ?_
    intro bs others
    exact rests_pure (List.forall_mem_cons.mpr ⟨first, others⟩)

/-- If no element changes the state, each value is what its element gives in that state. -/
theorem forall₂_of_each_eq_value {f : α → Run σ β} :
    ∀ {as : List α} {bs : List β} {t : σ}, (∀ a ∈ as, (f a s).2 = s) →
      each f as s = (.value bs, t) → List.Forall₂ (fun a b => f a s = (.value b, s)) as bs
  | [], _, _, _, ran => by
    cases ran
    exact .nil
  | a :: as, bs, t, rests, ran => by
    obtain ⟨b, u, rest, first, others, rfl⟩ := each_cons_eq_value_iff.mp ran
    have same : u = s := by
      have := rests a List.mem_cons_self
      rwa [first] at this
    rw [same] at first others
    refine .cons first (forall₂_of_each_eq_value ?_ others)
    exact fun a member => rests a (List.mem_cons_of_mem _ member)

/-- If each element gives its value and leaves the state alone, so does the whole list. -/
theorem each_eq_value_of_forall₂ {f : α → Run σ β} {as : List α} {bs : List β}
    (parts : List.Forall₂ (fun a b => f a s = (.value b, s)) as bs) :
    each f as s = (.value bs, s) := by
  induction parts with
  | nil => rfl
  | cons first _ ih => exact each_cons_eq_value_iff.mpr ⟨_, _, _, first, ih, rfl⟩

end Rests

/-! ### Computations that keep states good -/

/-- From a good state that has grown to `n`, the computation leads to a good one that has not shrunk,
and a value it ends with satisfies `Q` at the size reached. -/
def Keeps (good : σ → Prop) (size : σ → Nat) (n : Nat) (Q : Nat → α → Prop) (x : Run σ α) : Prop :=
  ∀ s, good s → n ≤ size s →
    good (x s).2 ∧ size s ≤ size (x s).2 ∧ ∀ a, (x s).1 = .value a → Q (size (x s).2) a

section Keeps

variable {good : σ → Prop} {size : σ → Nat} {n m : Nat} {Q : Nat → α → Prop} {R : Nat → β → Prop}

theorem keeps_pure {a : α} (holds : ∀ m, n ≤ m → Q m a) : Keeps good size n Q (pure a) := by
  intro s started enough
  refine ⟨started, Nat.le_refl _, fun b same => ?_⟩
  cases same
  exact holds _ enough

theorem keeps_fail (cause : Fault) : Keeps good size n Q (fail cause) :=
  fun _ started _ => ⟨started, Nat.le_refl _, nofun⟩

theorem keeps_exhaust : Keeps good size n Q exhaust :=
  fun _ started _ => ⟨started, Nat.le_refl _, nofun⟩

theorem keeps_ofExcept {r : Except Fault α} (holds : ∀ a, r = .ok a → ∀ m, n ≤ m → Q m a) :
    Keeps good size n Q (ofExcept r) := by
  cases r with
  | ok a => exact keeps_pure (holds a rfl)
  | error cause => exact keeps_fail cause

theorem keeps_read {f : σ → α} (holds : ∀ s, good s → Q (size s) (f s)) :
    Keeps good size n Q (read f) := by
  intro s started _
  refine ⟨started, Nat.le_refl _, fun a same => ?_⟩
  cases same
  exact holds s started

/-- What is kept from one size on is kept from every greater one. -/
theorem Keeps.later {x : Run σ α} (keeps : Keeps good size n Q x) (later : n ≤ m) :
    Keeps good size m Q x :=
  fun s started enough => keeps s started (Nat.le_trans later enough)

/-- The second computation may start from any size that the first one leads to. -/
theorem Keeps.bind {x : Run σ α} {f : α → Run σ β} (first : Keeps good size n Q x)
    (next : ∀ m a, n ≤ m → Q m a → Keeps good size m R (f a)) : Keeps good size n R (x >>= f) := by
  intro s started enough
  obtain ⟨kept, grown, holds⟩ := first s started enough
  rw [bind_apply]
  rcases ran : x s with ⟨a | cause | _, u⟩ <;> rw [ran] at kept grown holds
  · obtain ⟨kept', grown', holds'⟩ :=
      next (size u) a (Nat.le_trans enough grown) (holds a rfl) u kept (Nat.le_refl _)
    exact ⟨kept', Nat.le_trans grown grown', holds'⟩
  · exact ⟨kept, grown, nofun⟩
  · exact ⟨kept, grown, nofun⟩

/-- Values that were found early have to hold up while the state grows further. -/
theorem keeps_each {f : α → Run σ β} (stays : ∀ m m' b, m ≤ m' → R m b → R m' b) :
    ∀ {as : List α}, (∀ a ∈ as, Keeps good size n R (f a)) →
      Keeps good size n (fun m bs => ∀ b ∈ bs, R m b) (each f as)
  | [], _ => keeps_pure fun _ _ => nofun
  | a :: as, keeps => by
    obtain ⟨first, others⟩ := List.forall_mem_cons.mp keeps
    refine first.bind fun m b later here => ?_
    refine ((keeps_each stays others).later later).bind fun m' bs later' rest => ?_
    refine keeps_pure fun m'' later'' => List.forall_mem_cons.mpr ⟨?_, fun b member => ?_⟩
    · exact stays m m'' b (Nat.le_trans later' later'') here
    · exact stays m' m'' b later'' (rest b member)

end Keeps

end SmallLisp.Run
