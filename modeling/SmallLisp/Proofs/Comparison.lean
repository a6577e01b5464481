import Mathlib.Data.List.Forall2
import SmallLisp.Proofs.RunLaws

/-!
Two computations side by side.

A `Comparison` says which states and which faults of two computations correspond, and which endings
let one of them off: after those, nothing is asked of the other. `Comparison.Related` holds of two
computations that take corresponding states to corresponding endings. It is kept by sequencing, so
that two programs of the same shape are related as soon as their parts are.
-/

namespace SmallLisp

/-- What is compared of two computations. In the last two fields `none` stands for exhaustion. -/
structure Comparison (σ τ : Type) where
  /-- The states that correspond. -/
  states : σ → τ → Prop
  /-- The faults that correspond. -/
  faults : Fault → Fault → Prop
  /-- Endings of the left computation after which the right one may do anything. -/
  leftEscapes : Option Fault → Prop
  /-- Endings of the right computation after which the left one may do anything. -/
  rightEscapes : Option Fault → Prop

namespace Comparison

variable {σ τ α β γ δ : Type} {c : Comparison σ τ}

/-- Endings that correspond, where values are compared by `A`. -/
inductive Ends (c : Comparison σ τ) (A : α → β → Prop) :
    Outcome α × σ → Outcome β × τ → Prop where
  | value {a : α} {b : β} {s : σ} {t : τ} :
      A a b → c.states s t → Ends c A (.value a, s) (.value b, t)
  | fault {f g : Fault} {s : σ} {t : τ} :
      c.faults f g → c.states s t → Ends c A (.fault f, s) (.fault g, t)
  | exhausted {s : σ} {t : τ} : c.states s t → Ends c A (.exhausted, s) (.exhausted, t)
  | leftFault {f : Fault} {s : σ} {y : Outcome β × τ} :
      c.leftEscapes (some f) → Ends c A (.fault f, s) y
  | leftExhausted {s : σ} {y : Outcome β × τ} :
      c.leftEscapes none → Ends c A (.exhausted, s) y
  | rightFault {g : Fault} {x : Outcome α × σ} {t : τ} :
      c.rightEscapes (some g) → Ends c A x (.fault g, t)

/-- If neither computation can be let off, both end in the same way. -/
theorem Ends.of_strict {A : α → β → Prop} {x : Outcome α × σ} {y : Outcome β × τ}
    (strict : ∀ ending, ¬ c.leftEscapes ending ∧ ¬ c.rightEscapes ending) (ends : c.Ends A x y) :
    (∃ a b s t, x = (.value a, s) ∧ y = (.value b, t) ∧ A a b ∧ c.states s t) ∨
    (∃ f g s t, x = (.fault f, s) ∧ y = (.fault g, t) ∧ c.faults f g ∧ c.states s t) ∨
    ∃ s t, x = (.exhausted, s) ∧ y = (.exhausted, t) ∧ c.states s t := by
  cases ends with
  | value related states => exact .inl ⟨_, _, _, _, rfl, rfl, related, states⟩
  | fault related states => exact .inr (.inl ⟨_, _, _, _, rfl, rfl, related, states⟩)
  | exhausted states => exact .inr (.inr ⟨_, _, rfl, rfl, states⟩)
  | leftFault escapes => exact absurd escapes (strict _).1
  | leftExhausted escapes => exact absurd escapes (strict _).1
  | rightFault escapes => exact absurd escapes (strict _).2

/-- Computations that take corresponding states to corresponding endings. -/
def Related (c : Comparison σ τ) (A : α → β → Prop) (x : Run σ α) (y : Run τ β) : Prop :=
  ∀ s t, c.states s t → c.Ends A (x s) (y t)

theorem related_pure {A : α → β → Prop} {a : α} {b : β} (related : A a b) :
    c.Related A (pure a) (pure b) :=
  fun _ _ states => .value related states

theorem related_fail {A : α → β → Prop} {f g : Fault} (related : c.faults f g) :
    c.Related A (Run.fail f) (Run.fail g) :=
  fun _ _ states => .fault related states

theorem related_exhaust {A : α → β → Prop} : c.Related A Run.exhaust Run.exhaust :=
  fun _ _ states => .exhausted states

theorem related_update {f : σ → σ} {g : τ → τ} (keeps : ∀ s t, c.states s t → c.states (f s) (g t)) :
    c.Related Eq (Run.update f) (Run.update g) :=
  fun s t states => .value rfl (keeps s t states)

/-- Corresponding computations go on in correspondence. -/
theorem Related.bind {A : α → β → Prop} {B : γ → δ → Prop} {x : Run σ α} {y : Run τ β}
    {f : α → Run σ γ} {g : β → Run τ δ} (first : c.Related A x y)
    (next : ∀ a b, A a b → c.Related B (f a) (g b)) : c.Related B (x >>= f) (y >>= g) := by
  intro s t states
  have ends := first s t states
  rw [Run.bind_apply, Run.bind_apply]
  generalize x s = left at ends ⊢
  generalize y t = right at ends ⊢
  cases ends with
  | value related states => exact next _ _ related _ _ states
  | fault related states => exact .fault related states
  | exhausted states => exact .exhausted states
  | leftFault escapes => exact .leftFault escapes
  | leftExhausted escapes => exact .leftExhausted escapes
  | rightFault escapes => exact .rightFault escapes

theorem Related.mono {A B : α → β → Prop} {x : Run σ α} {y : Run τ β} (related : c.Related A x y)
    (weaker : ∀ a b, A a b → B a b) : c.Related B x y := by
  intro s t states
  have ends := related s t states
  generalize x s = left at ends ⊢
  generalize y t = right at ends ⊢
  cases ends with
  | value related states => exact .value (weaker _ _ related) states
  | fault related states => exact .fault related states
  | exhausted states => exact .exhausted states
  | leftFault escapes => exact .leftFault escapes
  | leftExhausted escapes => exact .leftExhausted escapes
  | rightFault escapes => exact .rightFault escapes

/-- Element by element, corresponding lists are gone through in correspondence. -/
theorem related_each {R : α → β → Prop} {B : γ → δ → Prop} {f : α → Run σ γ} {g : β → Run τ δ}
    (step : ∀ a b, R a b → c.Related B (f a) (g b)) {as : List α} {bs : List β}
    (related : List.Forall₂ R as bs) :
    c.Related (List.Forall₂ B) (Run.each f as) (Run.each g bs) := by
  induction related with
  | nil => exact related_pure .nil
  | cons head _ ih =>
    refine (step _ _ head).bind fun _ _ first => ih.bind fun _ _ rest => ?_
    exact related_pure (.cons first rest)

/-- Compares computations on the same state, of which one or the other may be let off. -/
def equal (leftEscapes rightEscapes : Option Fault → Prop) : Comparison σ σ where
  states := Eq
  faults := Eq
  leftEscapes := leftEscapes
  rightEscapes := rightEscapes

/-- A computation corresponds to itself, whatever either side is let off. -/
theorem related_self {leftEscapes rightEscapes : Option Fault → Prop} (x : Run σ α) :
    (equal leftEscapes rightEscapes).Related Eq x x := by
  intro s t same
  cases same
  rcases x s with ⟨a | cause | _, u⟩
  · exact .value rfl rfl
  · exact .fault rfl rfl
  · exact .exhausted rfl

/-- Equal values, and what is known of them. -/
def Agree (P : α → Prop) (a b : α) : Prop :=
  a = b ∧ P a

theorem agree_of_forall₂ {P : α → Prop} {as bs : List α} (agree : List.Forall₂ (Agree P) as bs) :
    as = bs ∧ ∀ a ∈ as, P a := by
  induction agree with
  | nil => exact ⟨rfl, nofun⟩
  | cons first _ ih =>
    obtain ⟨rfl, here⟩ := first
    obtain ⟨rfl, others⟩ := ih
    exact ⟨rfl, List.forall_mem_cons.mpr ⟨here, others⟩⟩

/-- Where both sides give the same value, one argument covers the rest of both. -/
theorem Related.agree_bind {P : α → Prop} {B : γ → δ → Prop} {x : Run σ α} {y : Run τ α}
    {f : α → Run σ γ} {g : α → Run τ δ} (first : c.Related (Agree P) x y)
    (next : ∀ a, P a → c.Related B (f a) (g a)) : c.Related B (x >>= f) (y >>= g) := by
  refine first.bind fun a b agree => ?_
  obtain ⟨rfl, holds⟩ := agree
  exact next a holds

theorem related_each_agree {P : α → β → Prop} {f : α → Run σ β} {g : α → Run τ β}
    (step : ∀ a, c.Related (Agree (P a)) (f a) (g a)) :
    ∀ as, c.Related (Agree (List.Forall₂ P as)) (Run.each f as) (Run.each g as)
  | [] => related_pure ⟨rfl, .nil⟩
  | a :: as => (step a).agree_bind fun _ first => (related_each_agree step as).agree_bind
      fun _ rest => related_pure ⟨rfl, .cons first rest⟩

/-- Results without a state that correspond, by `faults` or by `A`. -/
inductive Results (faults : Fault → Fault → Prop) (A : α → β → Prop) :
    Except Fault α → Except Fault β → Prop where
  | ok {a : α} {b : β} : A a b → Results faults A (.ok a) (.ok b)
  | error {f g : Fault} : faults f g → Results faults A (.error f) (.error g)

/-- Results without a state are compared as they are. -/
theorem related_ofExcept {A : α → β → Prop} {r : Except Fault α} {r' : Except Fault β}
    (related : Results c.faults A r r') : c.Related A (Run.ofExcept r) (Run.ofExcept r') := by
  cases related with
  | ok related => exact related_pure related
  | error related => exact related_fail related

theorem Results.map {faults : Fault → Fault → Prop} {A : α → β → Prop} {B : γ → δ → Prop}
    {f : α → γ} {g : β → δ} {r : Except Fault α} {r' : Except Fault β}
    (related : Results faults A r r') (maps : ∀ a b, A a b → B (f a) (g b)) :
    Results faults B (r.map f) (r'.map g) := by
  cases related with
  | ok related => exact .ok (maps _ _ related)
  | error related => exact .error related

end Comparison

end SmallLisp
