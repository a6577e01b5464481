import SmallLisp.Proofs.Correspondence

/-!
The allowance of nested forms.

More depth than a program needs makes no difference: an evaluation that ends with a value or a fault
ends in the same way at every greater depth (`evaluate_deeper`). What a program does is therefore
said without naming a depth: `Concludes` holds of the one ending that every large enough depth gives, and
a program that has none is without end.
-/

namespace SmallLisp

/-- Compares evaluations on the same store, of which the left one may be exhausted early. -/
def Correspondence.shallower : Correspondence where
  toComparison := Comparison.equal (fun ending => ending = none) fun _ => False
  values := Eq
  forms := Eq

namespace Correspondence

open Comparison

theorem shallower_selfsame : shallower.Selfsame fun _ => True where
  values _ _ := rfl
  forms _ _ := rfl
  faults _ := rfl
  items _ _ _ _ := trivial
  body _ _ := trivial

/-- Evaluation at a lesser depth is compared on one store, where nothing can differ. -/
theorem shallower_lawful : shallower.Lawful where
  find _ _ := related_self _
  requireUnbound _ _ := related_self _
  bindName e name v w same := by
    cases same
    exact related_self _
  newFrame _ := related_self _
  newClosure params body body' e same := by
    cases same
    exact related_self _
  nil := rfl
  truthy v w same := by rw [show v = w from same]
  bindingName v w same := by
    cases same
    cases v.bindingName with
    | ok name => exact .ok rfl
    | error cause => exact .error rfl
  procedures f g same := by
    cases same
    cases f with
    | builtin b =>
      refine .builtin fun e as bs operands => ?_
      have same : as = bs := by
        rwa [show shallower.values = Eq from rfl, List.forall₂_eq_eq_eq] at operands
      rw [same]
      exact related_self _
    | closure => exact .closure rfl
    | _ => exact .other rfl rfl rfl
  shapes p q same := by
    cases same
    exact shallower_selfsame.shapes trivial

end Correspondence

open Correspondence in
/-- Evaluation at some depth does the same as at a greater one, unless it is exhausted. -/
theorem evaluate_shallower : ∀ {depth deeper : Nat}, depth ≤ deeper →
    shallower.Evaluators (evaluate depth) (evaluate deeper)
  | 0, _, _ => fun _ _ _ _ _ _ _ => .leftExhausted rfl
  | depth + 1, 0, less => absurd less (Nat.not_succ_le_zero depth)
  | _ + 1, _ + 1, less =>
    step_related shallower_lawful (evaluate_shallower (Nat.le_of_succ_le_succ less))

/-- An evaluation that ends keeps its ending at every greater depth. -/
theorem evaluate_deeper {depth deeper : Nat} (less : depth ≤ deeper) {e : FrameId} {form : Value}
    {s t : Store} {o : Outcome Value} (ran : evaluate depth e form s = (o, t))
    (ended : o ≠ .exhausted) : evaluate deeper e form s = (o, t) := by
  have ends := evaluate_shallower less e form form rfl s s rfl
  rw [ran] at ends
  generalize evaluate deeper e form s = result at ends ⊢
  cases ends with
  | value same states => rw [same, states]
  | fault same states => rw [same, states]
  | exhausted => exact absurd rfl ended
  | leftFault escapes => cases escapes
  | leftExhausted => exact absurd rfl ended
  | rightFault escapes => cases escapes

/-- The form, evaluated in the frame `e` of the store `s`, ends with `o` and leaves the store `t`. -/
def Concludes (e : FrameId) (form : Value) (s : Store) (o : Outcome Value) (t : Store) : Prop :=
  o ≠ .exhausted ∧ ∃ depth, evaluate depth e form s = (o, t)

/-- The form is exhausted at every depth. -/
def Endless (e : FrameId) (form : Value) (s : Store) : Prop :=
  ∀ depth, (evaluate depth e form s).1 = .exhausted

/-- A form has one ending at most. -/
theorem Concludes.unique {e : FrameId} {form : Value} {s t t' : Store} {o o' : Outcome Value}
    (ends : Concludes e form s o t) (ends' : Concludes e form s o' t') : o = o' ∧ t = t' := by
  obtain ⟨ended, depth, ran⟩ := ends
  obtain ⟨ended', depth', ran'⟩ := ends'
  have left := evaluate_deeper (Nat.le_max_left depth depth') ran ended
  have right := evaluate_deeper (Nat.le_max_right depth depth') ran' ended'
  rw [left] at right
  cases right
  exact ⟨rfl, rfl⟩

/-- A form concludes or is without end. -/
theorem concludes_or_endless (e : FrameId) (form : Value) (s : Store) :
    (∃ o t, Concludes e form s o t) ∨ Endless e form s := by
  by_cases endless : Endless e form s
  · exact .inr endless
  · obtain ⟨depth, ended⟩ := Classical.not_forall.mp endless
    exact .inl ⟨_, _, ended, depth, rfl⟩

/-! ### Forms that give a value -/

/-- The form, evaluated in the frame `e` of the store `s`, gives `v` and leaves the store `t`. -/
def Yields (e : FrameId) (form : Value) (s : Store) (v : Value) (t : Store) : Prop :=
  ∃ depth, evaluate depth e form s = (.value v, t)

/-- The forms, evaluated from left to right, all give a value, each in the store that the one before
it leaves. -/
inductive YieldsAll (e : FrameId) : List Value → Store → List Value → Store → Prop
  | nil {s : Store} : YieldsAll e [] s [] s
  | cons {form v : Value} {forms vs : List Value} {s u t : Store} :
      Yields e form s v u → YieldsAll e forms u vs t → YieldsAll e (form :: forms) s (v :: vs) t

/-- Every form that is evaluated gives one value. -/
theorem YieldsAll.length_eq {e : FrameId} {forms vs : List Value} {s t : Store}
    (yields : YieldsAll e forms s vs t) : vs.length = forms.length := by
  induction yields with
  | nil => rfl
  | cons _ _ ih => simp [ih]

/-- Values that are found at a depth are found at every greater one. -/
theorem each_deeper {depth deeper : Nat} (less : depth ≤ deeper) {e : FrameId} :
    ∀ {forms vs : List Value} {s t : Store},
      Run.each (evaluate depth e) forms s = (.value vs, t) →
        Run.each (evaluate deeper e) forms s = (.value vs, t)
  | [], _, _, _, ran => ran
  | form :: forms, vs, s, t, ran => by
    obtain ⟨v, u, rest, first, others, same⟩ := Run.each_cons_eq_value_iff.mp ran
    exact Run.each_cons_eq_value_iff.mpr
      ⟨v, u, rest, evaluate_deeper less first nofun, each_deeper less others, same⟩

/-- One depth is enough for all of the forms, the greatest that any of them needs. -/
theorem yieldsAll_iff {e : FrameId} {forms vs : List Value} {s t : Store} :
    YieldsAll e forms s vs t ↔ ∃ depth, Run.each (evaluate depth e) forms s = (.value vs, t) := by
  constructor
  · intro yields
    induction yields with
    | nil => exact ⟨0, rfl⟩
    | cons first _ ih =>
      obtain ⟨depth, ran⟩ := first
      obtain ⟨depth', others⟩ := ih
      have here := evaluate_deeper (Nat.le_max_left depth depth') ran nofun
      have after := each_deeper (Nat.le_max_right depth depth') others
      exact ⟨max depth depth', Run.each_cons_eq_value_iff.mpr ⟨_, _, _, here, after, rfl⟩⟩
  · rintro ⟨depth, ran⟩
    induction forms generalizing s vs with
    | nil =>
      cases ran
      exact .nil
    | cons form forms ih =>
      obtain ⟨v, u, rest, first, others, rfl⟩ := Run.each_cons_eq_value_iff.mp ran
      exact .cons ⟨depth, first⟩ (ih others)

/-- Forms in a row are evaluated piece by piece. -/
theorem yieldsAll_append_iff {e : FrameId} {forms forms' vs : List Value} {s t : Store} :
    YieldsAll e (forms ++ forms') s vs t ↔ ∃ first u rest,
      YieldsAll e forms s first u ∧ YieldsAll e forms' u rest t ∧ vs = first ++ rest := by
  constructor
  · intro yields
    induction forms generalizing s vs with
    | nil => exact ⟨[], s, vs, .nil, yields, rfl⟩
    | cons form forms ih =>
      cases yields with
      | cons here others =>
        obtain ⟨first, u, rest, before, after, rfl⟩ := ih others
        exact ⟨_ :: first, u, rest, .cons here before, after, rfl⟩
  · rintro ⟨first, u, rest, before, after, rfl⟩
    induction before with
    | nil => exact after
    | cons here _ ih => exact .cons here (ih after)

/-- A datum that is quoted is its own value. -/
theorem yields_quote_iff {e : FrameId} {datum v : Value} {s t : Store} :
    Yields e (.list [.symbol SpecialForm.quote.name, datum]) s v t ↔ v = datum ∧ t = s := by
  constructor
  · rintro ⟨depth | depth, ran⟩
    · cases ran
    · cases ran
      exact ⟨rfl, rfl⟩
  · rintro ⟨rfl, rfl⟩
    exact ⟨1, rfl⟩

/-- The call of a built-in procedure by a name looks the name up first, and evaluates the operands
after it. -/
theorem yields_call_iff {e : FrameId} {name : String} {b : Builtin} {operands : List Value}
    {s t : Store} {v : Value} (ordinary : SpecialForm.ofName? name = none)
    (found : s.lookup? e name = some (.builtin b)) :
    Yields e (.list (.symbol name :: operands)) s v t ↔
      ∃ vs u, YieldsAll e operands s vs u ∧ b.call vs e u = (.value v, t) := by
  have finds : find e name s = (.value (.builtin b), s) := by simp [find, found]
  have step : ∀ depth, evaluate (depth + 1) e (.list (.symbol name :: operands)) s =
      (Run.each (evaluate depth e) operands >>= fun vs => b.call vs e) s := by
    intro depth
    -- The name is looked up in `s` itself: the operands come later.
    simp only [evaluate, Evaluator.step]
    rw [Evaluator.list_call _ e ordinary, Run.bind_apply, finds]
    rfl
  constructor
  · rintro ⟨depth | depth, ran⟩
    · cases ran
    · rw [step] at ran
      obtain ⟨vs, u, operands, called⟩ := Run.bind_eq_value_iff.mp ran
      exact ⟨vs, u, yieldsAll_iff.mpr ⟨depth, operands⟩, called⟩
  · rintro ⟨vs, u, yields, called⟩
    obtain ⟨depth, operands⟩ := yieldsAll_iff.mp yields
    exact ⟨depth + 1, by rw [step]; exact Run.bind_eq_value_iff.mpr ⟨vs, u, operands, called⟩⟩

end SmallLisp
