import SmallLisp.Proofs.Correspondence

/-!
Values and stores that differ only in the bodies of closures.

`Alike bodies` lets the bodies of two closures differ by the relation `bodies` and asks for the same
in everything else: stamps, parameters and frames of closures, and all other values. No built-in
procedure looks into a closure, so on operands that are alike they all give results that are alike,
or fail in the same way.
-/

namespace SmallLisp

variable (bodies : Value → Value → Prop)

/-- Equality up to the bodies of closures. -/
inductive Alike : Value → Value → Prop where
  | same (v : Value) : Alike v v
  | list {vs ws : List Value} : List.Forall₂ Alike vs ws → Alike (.list vs) (.list ws)
  | closure {stamp : Nat} {params : List String} {body body' : Value} {scope : FrameId} :
      bodies body body' → Alike (.closure stamp params body scope) (.closure stamp params body' scope)

/-- Faults of one kind and code. -/
def Fault.Like (f g : Fault) : Prop :=
  f.kind = g.kind ∧ f.code = g.code

theorem Fault.Like.refl (f : Fault) : f.Like f :=
  ⟨rfl, rfl⟩

variable {bodies}

/-! ### What values that are alike have in common -/

namespace Alike

variable {v w : Value}

theorem forall₂_refl (vs : List Value) : List.Forall₂ (Alike bodies) vs vs :=
  List.forall₂_same.mpr fun v _ => .same v

/-- Only a list is like a list. -/
theorem of_list {vs : List Value} (alike : Alike bodies (.list vs) w) :
    ∃ ws, w = .list ws ∧ List.Forall₂ (Alike bodies) vs ws := by
  cases alike with
  | same => exact ⟨vs, rfl, forall₂_refl vs⟩
  | list items => exact ⟨_, rfl, items⟩

theorem truthy_eq (alike : Alike bodies v w) : v.truthy = w.truthy := by
  cases alike with
  | same => rfl
  | list items => cases items <;> rfl
  | closure => rfl

theorem text?_eq (alike : Alike bodies v w) : v.text? = w.text? := by
  cases alike <;> rfl

theorem toFloat?_eq (alike : Alike bodies v w) : v.toFloat? = w.toFloat? := by
  cases alike <;> rfl

theorem rawText?_eq (alike : Alike bodies v w) : v.rawText? = w.rawText? := by
  cases alike with
  | same => rfl
  | list => rfl
  | closure => rfl

/-- Values that are alike give the same name to a binding, or both give none. -/
theorem bindingName_results (alike : Alike bodies v w) :
    Comparison.Results Fault.Like Eq v.bindingName w.bindingName := by
  cases alike with
  | same =>
    cases v.bindingName with
    | ok name => exact .ok rfl
    | error cause => exact .error (.refl cause)
  | list => exact .error ⟨rfl, rfl⟩
  | closure => exact .error ⟨rfl, rfl⟩

theorem namesBinding_eq (alike : Alike bodies v w) {s t : Store} {e : FrameId}
    (bound : ∀ name, s.isBound e name = t.isBound e name) :
    s.namesBinding e v = t.namesBinding e w := by
  cases alike with
  | same => cases v <;> simp [Store.namesBinding, bound]
  | list => rfl
  | closure => rfl

theorem first?_getD (alike : Alike bodies v w) :
    Alike bodies (v.first?.getD .nil) (w.first?.getD .nil) := by
  cases alike with
  | same => exact .same _
  | list items =>
    cases items with
    | nil => exact .same _
    | cons first _ => exact first
  | closure => exact .same _

end Alike

/-! ### Equality does not look into closures -/

namespace Value

mutual

/-- Comparison by value sees of a closure only its stamp, so it cannot tell values apart that are
alike. -/
theorem equal_alike : ∀ (a : Value) {a' b b' : Value}, Alike bodies a a' → Alike bodies b b' →
    equal a b = equal a' b'
  | .list as, a', b, b', left, right => by
    obtain ⟨as', rfl, items⟩ := left.of_list
    cases right with
    | same =>
      cases b with
      | list bs => simpa [equal] using equalItems_alike as items (Alike.forall₂_refl bs)
      | _ => rfl
    | list items' => simpa [equal] using equalItems_alike as items items'
    | closure => rfl
  | .closure stamp params body scope, a', b, b', left, right => by
    cases left with
    | same => cases right <;> rfl
    | closure =>
      cases right with
      | same => cases b <;> rfl
      | list => rfl
      | closure => rfl
  | .int _, a', b, b', left, right | .real _, a', b, b', left, right
  | .bool _, a', b, b', left, right | .marker _, a', b, b', left, right
  | .text _, a', b, b', left, right | .symbol _, a', b, b', left, right
  | .builtin _, a', b, b', left, right | .nil, a', b, b', left, right => by
    cases left
    cases right <;> rfl

theorem equalItems_alike : ∀ (as : List Value) {as' bs bs' : List Value},
    List.Forall₂ (Alike bodies) as as' → List.Forall₂ (Alike bodies) bs bs' →
      equalItems as bs = equalItems as' bs'
  | [], _, _, _, .nil, right => by cases right <;> rfl
  | a :: as, _, _, _, .cons first rest, right => by
    cases right with
    | nil => rfl
    | cons first' rest' =>
      simp only [equalItems, equal_alike a first first', equalItems_alike as rest rest']

end

end Value

/-! ### Built-in procedures do not look into closures -/

section Builtins

open Comparison (Results)

variable {as bs : List Value}

theorem equalChain_alike (operands : List.Forall₂ (Alike bodies) as bs) :
    equalChain as = equalChain bs := by
  induction operands with
  | nil => rfl
  | cons first rest ih =>
    cases rest with
    | nil => rfl
    | cons second _ => simp only [equalChain, Value.equal_alike _ first second, ih]

/-- A test that cannot tell values apart gives the same answer on all operands. -/
theorem all_alike {p q : Value → Bool} (same : ∀ v w, Alike bodies v w → p v = q w)
    (operands : List.Forall₂ (Alike bodies) as bs) : as.all p = bs.all q := by
  induction operands with
  | nil => rfl
  | cons first _ ih => rw [List.all_cons, List.all_cons, same _ _ first, ih]

theorem results_refl {α : Type} (r : Except Fault α) : Results Fault.Like Eq r r := by
  cases r with
  | ok a => exact .ok rfl
  | error cause => exact .error (.refl cause)

namespace Order

variable (order : Order)

/-- An order never looks into a closure, which it reports by a fault of one kind and code. -/
theorem compare_alike {a a' b b' : Value} (left : Alike bodies a a') (right : Alike bodies b b') :
    Results Fault.Like Eq (order.compare a b) (order.compare a' b') := by
  cases left with
  | same =>
    cases right with
    | same => exact results_refl _
    | list => cases a <;> exact .error ⟨rfl, rfl⟩
    | closure => cases a <;> exact .error ⟨rfl, rfl⟩
  | list =>
    cases right with
    | same => cases b <;> exact .error ⟨rfl, rfl⟩
    | list => exact .error ⟨rfl, rfl⟩
    | closure => exact .error ⟨rfl, rfl⟩
  | closure =>
    cases right with
    | same => cases b <;> exact .error ⟨rfl, rfl⟩
    | list => exact .error ⟨rfl, rfl⟩
    | closure => exact .error ⟨rfl, rfl⟩

theorem chain_alike (operands : List.Forall₂ (Alike bodies) as bs) :
    Results Fault.Like Eq (order.chain as) (order.chain bs) := by
  induction operands with
  | nil => exact .ok rfl
  | cons first rest ih =>
    cases rest with
    | nil => exact .ok rfl
    | cons second _ =>
      have here := compare_alike order first second
      simp only [chain]
      generalize order.compare _ _ = r at here ⊢
      generalize order.compare _ _ = r' at here ⊢
      generalize order.chain _ = q at ih ⊢
      generalize order.chain _ = q' at ih ⊢
      cases here with
      | error like => exact .error like
      | ok same =>
        cases ih with
        | error like => exact .error like
        | ok same' => exact .ok (by rw [same, same'])

end Order

namespace Operation

/-- Either all operands are the same numbers, or both rows have one that is no number. -/
theorem reals_alike (operands : List.Forall₂ (Alike bodies) as bs) :
    (∃ xs, reals as = .ok xs ∧ reals bs = .ok xs) ∨
      ∃ v w, reals as = .error v ∧ reals bs = .error w := by
  induction operands with
  | nil => exact .inl ⟨[], rfl, rfl⟩
  | @cons a b _ _ first _ ih =>
    simp only [reals, first.toFloat?_eq]
    cases b.toFloat? with
    | none => exact .inr ⟨a, b, rfl, rfl⟩
    | some x =>
      obtain ⟨xs, left, right⟩ | ⟨v, w, left, right⟩ := ih
      · exact .inl ⟨x :: xs, by rw [left]; rfl, by rw [right]; rfl⟩
      · exact .inr ⟨v, w, by rw [left]; rfl, by rw [right]; rfl⟩

theorem integers?_alike (operands : List.Forall₂ (Alike bodies) as bs) :
    integers? as = integers? bs := by
  induction operands with
  | nil => rfl
  | @cons a b _ _ first _ ih =>
    cases first with
    | same => cases a <;> simp only [integers?, ih]
    | list => rfl
    | closure => rfl

/-- Arithmetic on operands that are alike ends in the same way. -/
theorem apply_alike (op : Operation) (operands : List.Forall₂ (Alike bodies) as bs) :
    Results Fault.Like (Alike bodies) (op.apply as) (op.apply bs) := by
  have texts : as.any (fun v => v.text?.isSome) = bs.any (fun v => v.text?.isSome) := by
    induction operands with
    | nil => rfl
    | cons first _ ih => rw [List.any_cons, List.any_cons, first.text?_eq, ih]
  have fromEq : ∀ r : Except Fault Value, Results Fault.Like (Alike bodies) r r := by
    rintro (cause | v)
    · exact .error (.refl cause)
    · exact .ok (.same v)
  unfold apply
  rw [texts, integers?_alike operands]
  split
  · exact .error (.refl _)
  · obtain ⟨xs, left, right⟩ | ⟨v, w, left, right⟩ := reals_alike operands
    · rw [left, right]
      exact fromEq _
    · rw [left, right]
      exact .error ⟨rfl, rfl⟩

end Operation

namespace Sequences

theorem rawTexts_alike (target : String) (operands : List.Forall₂ (Alike bodies) as bs) :
    rawTexts target as = rawTexts target bs := by
  induction operands with
  | nil => rfl
  | cons first _ ih => simp only [rawTexts, first.rawText?_eq, ih]

/-- The elements of lists that are alike are alike. -/
theorem lists?_alike (operands : List.Forall₂ (Alike bodies) as bs) :
    Option.Rel (List.Forall₂ (Alike bodies)) (lists? as) (lists? bs) := by
  induction operands with
  | nil => exact .some .nil
  | @cons a b as' bs' first _ ih =>
    cases items : a.items? with
    | none =>
      cases first with
      | same => cases a <;> first | exact .none | cases items
      | list => cases items
      | closure => exact .none
    | some vs =>
      cases a with
      | list =>
        obtain ⟨ws, rfl, related⟩ := first.of_list
        simp only [lists?]
        generalize lists? as' = r at ih ⊢
        generalize lists? bs' = r' at ih ⊢
        cases ih with
        | none => exact .none
        | some rest => exact .some (List.rel_append related rest)
      | _ => cases items

theorem texts?_alike (operands : List.Forall₂ (Alike bodies) as bs) : texts? as = texts? bs := by
  induction operands with
  | nil => rfl
  | @cons a _ _ _ first _ ih =>
    cases first with
    | same => cases a <;> simp only [texts?, ih]
    | list => rfl
    | closure => rfl

theorem concat_alike (operands : List.Forall₂ (Alike bodies) as bs) :
    Results Fault.Like (Alike bodies) (concat as) (concat bs) := by
  have lists := lists?_alike operands
  unfold concat
  rw [texts?_alike operands]
  generalize lists? as = r at lists ⊢
  generalize lists? bs = r' at lists ⊢
  cases lists with
  | some items => exact .ok (.list items)
  | none =>
    cases texts? bs with
    | some s => exact .ok (.same _)
    | none => exact .error (.refl _)

/-- What is put together of parts that are alike is alike. -/
theorem cons_alike (operands : List.Forall₂ (Alike bodies) as bs) :
    Results Fault.Like (Alike bodies) (cons as) (cons bs) := by
  cases operands with
  | nil => exact .error (.refl _)
  | @cons a b as' bs' first rest =>
    have lists := lists?_alike rest
    have texts := texts?_alike rest
    have start := rawTexts_alike "String" (.cons first .nil : List.Forall₂ (Alike bodies) [a] [b])
    simp only [cons]
    rw [texts, start]
    generalize lists? as' = r at lists ⊢
    generalize lists? bs' = r' at lists ⊢
    cases lists with
    | some items => exact .ok (.list (.cons first items))
    | none =>
      cases texts? bs' with
      | none => exact .ok (.list (.cons first rest))
      | some s => exact (results_refl _).map fun _ _ same => same ▸ .same _

theorem head_alike (operands : List.Forall₂ (Alike bodies) as bs) :
    Results Fault.Like (Alike bodies) (head as) (head bs) := by
  cases operands with
  | nil => exact .error (.refl _)
  | cons first rest =>
    cases rest with
    | nil => exact .ok first.first?_getD
    | cons => exact .error ⟨rfl, rfl⟩

theorem tail_alike (operands : List.Forall₂ (Alike bodies) as bs) :
    Results Fault.Like (Alike bodies) (tail as) (tail bs) := by
  cases operands with
  | nil => exact .error (.refl _)
  | @cons a _ _ _ first rest =>
    cases rest with
    | nil =>
      cases first with
      | same => cases a <;> exact .ok (.same _)
      | closure => exact .ok (.same _)
      | list items =>
        cases items with
        | nil => exact .ok (.same _)
        | cons _ others => exact .ok (.list others)
    | cons =>
      simp only [tail]
      exact .error ⟨rfl, rfl⟩

theorem join_alike (operands : List.Forall₂ (Alike bodies) as bs) :
    Results Fault.Like (Alike bodies) (join as) (join bs) := by
  cases operands with
  | nil => exact .error (.refl _)
  | cons first rest =>
    cases rest with
    | nil => exact .error ⟨rfl, rfl⟩
    | @cons a _ _ _ second others =>
      cases others with
      | cons =>
        simp only [join]
        exact .error ⟨rfl, rfl⟩
      | nil =>
        cases second with
        | list items => exact .ok (.list (.cons first items))
        | closure related => exact .ok (.list (.cons first (.cons (.closure related) .nil)))
        | same =>
          cases a with
          | list items => exact .ok (.list (.cons first (Alike.forall₂_refl items)))
          | _ => exact .ok (.list (.cons first (.cons (.same _) .nil)))

end Sequences

end Builtins

/-! ### Stores that are alike -/

/-- Frames that bind the same names in the same order to values that are alike. -/
structure Frame.Alike (bodies : Value → Value → Prop) (f g : Frame) : Prop where
  bindings : List.Forall₂ (fun p q => p.1 = q.1 ∧ SmallLisp.Alike bodies p.2 q.2)
    f.bindings g.bindings
  parent : f.parent = g.parent
  registered : f.registered = g.registered

theorem Frame.Alike.refl (f : Frame) : f.Alike bodies f :=
  ⟨List.forall₂_same.mpr fun p _ => ⟨rfl, .same p.2⟩, rfl, rfl⟩

/-- Each name is bound to values that are alike, or in neither frame. -/
theorem Frame.Alike.find? {f g : Frame} (alike : f.Alike bodies g) (name : String) :
    Option.Rel (SmallLisp.Alike bodies) (f.find? name) (g.find? name) := by
  have bindings := alike.bindings
  unfold Frame.find?
  generalize f.bindings = ps at bindings ⊢
  generalize g.bindings = qs at bindings ⊢
  induction bindings with
  | nil => exact .none
  | @cons p q _ _ first _ ih =>
    rw [List.lookup_cons, List.lookup_cons, first.1]
    split
    · exact .some first.2
    · exact ih

/-- The listing of a frame shows names only. -/
theorem Frame.Alike.names_eq {f g : Frame} (alike : f.Alike bodies g) : f.names = g.names := by
  have same : f.bindings.map Prod.fst = g.bindings.map Prod.fst := by
    have bindings := alike.bindings
    generalize f.bindings = ps at bindings ⊢
    generalize g.bindings = qs at bindings ⊢
    induction bindings with
    | nil => rfl
    | cons first _ ih => rw [List.map_cons, List.map_cons, first.1, ih]
  unfold Frame.names
  rw [same]

/-- Stores with frames that are alike, and the same stamps and emitted lines. -/
structure Store.Alike (bodies : Value → Value → Prop) (s t : Store) : Prop where
  size : s.frames.size = t.frames.size
  frames : ∀ i : FrameId, Option.Rel (Frame.Alike bodies) s.frames[i]? t.frames[i]?
  stamps : s.stamps = t.stamps
  emitted : s.emitted = t.emitted

namespace Store.Alike

variable {s t : Store}

theorem refl (s : Store) : s.Alike bodies s where
  size := rfl
  frames i := by
    cases s.frames[i]? with
    | none => exact .none
    | some frame => exact .some (.refl frame)
  stamps := rfl
  emitted := rfl

/-- The way up is the same, since parents are. -/
theorem ancestry_eq (alike : s.Alike bodies t) (e : FrameId) : s.ancestry e = t.ancestry e := by
  refine ancestryUpTo_congr (fun i => ?_) (e + 1) e
  have frames := alike.frames i
  generalize s.frames[i]? = f at frames ⊢
  generalize t.frames[i]? = g at frames ⊢
  cases frames with
  | none => rfl
  | some frame => exact congrArg some frame.parent

theorem frameFind? (alike : s.Alike bodies t) (name : String) (e : FrameId) :
    Option.Rel (SmallLisp.Alike bodies) (s.frameFind? name e) (t.frameFind? name e) := by
  have frames := alike.frames e
  unfold Store.frameFind?
  generalize s.frames[e]? = f at frames ⊢
  generalize t.frames[e]? = g at frames ⊢
  cases frames with
  | none => exact .none
  | some frame => exact frame.find? name

theorem binds_eq (alike : s.Alike bodies t) (e : FrameId) (name : String) :
    s.binds e name = t.binds e name := by
  have found := alike.frameFind? name e
  unfold Store.binds
  generalize s.frameFind? name e = f at found ⊢
  generalize t.frameFind? name e = g at found ⊢
  cases found <;> rfl

/-- From every frame each name has values that are alike, or none in both stores. -/
theorem lookup? (alike : s.Alike bodies t) (e : FrameId) (name : String) :
    Option.Rel (SmallLisp.Alike bodies) (s.lookup? e name) (t.lookup? e name) := by
  unfold Store.lookup?
  rw [alike.ancestry_eq e]
  induction t.ancestry e with
  | nil => exact .none
  | cons i rest ih =>
    have found := alike.frameFind? name i
    rw [List.findSome?_cons, List.findSome?_cons]
    generalize s.frameFind? name i = f at found ⊢
    generalize t.frameFind? name i = g at found ⊢
    cases found with
    | none => exact ih
    | some values => exact .some values

theorem isBound_eq (alike : s.Alike bodies t) (e : FrameId) (name : String) :
    s.isBound e name = t.isBound e name := by
  have found := alike.lookup? e name
  unfold Store.isBound
  generalize s.lookup? e name = f at found ⊢
  generalize t.lookup? e name = g at found ⊢
  cases found <;> rfl

/-- What is emitted about the root is the same line. -/
theorem rootLine_eq (alike : s.Alike bodies t) (e : FrameId) : s.rootLine e = t.rootLine e := by
  have root : s.rootOf e = t.rootOf e := by
    unfold Store.rootOf
    rw [alike.ancestry_eq e]
  have frames := alike.frames (t.rootOf e)
  unfold Store.rootLine Store.names
  rw [root]
  generalize s.frames[t.rootOf e]? = f at frames ⊢
  generalize t.frames[t.rootOf e]? = g at frames ⊢
  cases frames with
  | none => rfl
  | some frame => simp only [Option.map_some, frame.names_eq]

theorem emit (alike : s.Alike bodies t) (line : String) : (s.emit line).Alike bodies (t.emit line) :=
  ⟨alike.size, alike.frames, alike.stamps, by simp only [Store.emit, alike.emitted]⟩

theorem addChild (alike : s.Alike bodies t) (parent : FrameId) :
    (s.addChild parent).Alike bodies (t.addChild parent) where
  size := by simp [Store.addChild, alike.size]
  frames i := by
    simp only [Store.addChild, Array.getElem?_push, alike.size]
    split
    · exact .some (.refl _)
    · exact alike.frames i
  stamps := alike.stamps
  emitted := alike.emitted

/-- Binding values that are alike under one name keeps stores alike. -/
theorem insert (alike : s.Alike bodies t) (e : FrameId) (name : String) {v w : Value}
    (values : SmallLisp.Alike bodies v w) :
    (s.insert e name v).Alike bodies (t.insert e name w) where
  size := by simp [Store.insert, alike.size]
  frames i := by
    have frames := alike.frames i
    simp only [Store.insert, Array.getElem?_modify]
    generalize s.frames[i]? = f at frames ⊢
    generalize t.frames[i]? = g at frames ⊢
    split
    · cases frames with
      | none => exact .none
      | some frame =>
        exact .some ⟨.cons ⟨rfl, values⟩ frame.bindings, frame.parent, frame.registered⟩
    · exact frames
  stamps := alike.stamps
  emitted := alike.emitted

end Store.Alike

/-! ### Evaluation of forms that correspond -/

namespace Correspondence

open Comparison

/-- Compares evaluations by values and stores that are alike up to corresponding forms. -/
def upTo (forms : Value → Value → Prop) : Correspondence where
  states := Store.Alike forms
  faults := Fault.Like
  leftEscapes _ := False
  rightEscapes _ := False
  values := Alike forms
  forms := forms

variable {forms : Value → Value → Prop}

/-- Every built-in procedure keeps the correspondence, whatever the bodies of closures are. -/
theorem upTo_call (b : Builtin) (e : FrameId) (as bs : List Value)
    (operands : List.Forall₂ (Alike forms) as bs) :
    (upTo forms).Related (Alike forms) (b.call as e) (b.call bs e) := by
  have decided : ∀ {x y : Bool}, x = y →
      (upTo forms).Related (Alike forms) (pure (.bool x)) (pure (.bool y)) := by
    rintro x _ rfl
    exact related_pure (.same _)
  have ofTag : ∀ p : Value → Bool, (∀ v w, Alike forms v w → p v = p w) →
      (upTo forms).Related (Alike forms) (pure (.bool (as.all p))) (pure (.bool (bs.all p))) :=
    fun p same => decided (all_alike same operands)
  have named : ∀ target (make : String → Value), (upTo forms).Related (Alike forms)
      (.ofExcept ((Sequences.rawTexts target as).map make))
      (.ofExcept ((Sequences.rawTexts target bs).map make)) := by
    intro target make
    rw [Sequences.rawTexts_alike target operands]
    exact related_ofExcept ((results_refl _).map fun _ _ same => same ▸ .same _)
  have ordered : ∀ order : Order, (upTo forms).Related (Alike forms)
      (.ofExcept ((order.chain as).map .bool)) (.ofExcept ((order.chain bs).map .bool)) :=
    fun order => related_ofExcept ((order.chain_alike operands).map fun _ _ same => same ▸ .same _)
  have emits : ∀ line : Store → String, (∀ s t, s.Alike forms t → line s = line t) →
      (upTo forms).Related (Alike forms) (Run.update (fun s => s.emit (line s)) >>= fun _ => pure .nil)
        (Run.update (fun s => s.emit (line s)) >>= fun _ => pure .nil) := by
    intro line same
    refine (related_update fun s t stores => ?_).bind fun _ _ _ => related_pure (.same _)
    rw [same s t stores]
    exact Store.Alike.emit stores _
  cases b with
  | add => exact related_ofExcept (Operation.apply_alike .add operands)
  | subtract => exact related_ofExcept (Operation.apply_alike .subtract operands)
  | multiply => exact related_ofExcept (Operation.apply_alike .multiply operands)
  | modulo => exact related_ofExcept (Operation.apply_alike .modulo operands)
  | less => exact ordered .less
  | greater => exact ordered .greater
  | equal => exact decided (equalChain_alike operands)
  | concat => exact related_ofExcept (Sequences.concat_alike operands)
  | isBoolean => exact ofTag _ fun _ _ alike => by cases alike <;> rfl
  | isInteger => exact ofTag _ fun _ _ alike => by cases alike <;> rfl
  | isReal => exact ofTag _ fun _ _ alike => by cases alike <;> rfl
  | isText => exact ofTag _ fun _ _ alike => by cases alike <;> rfl
  | isSymbol => exact ofTag _ fun _ _ alike => by cases alike <;> rfl
  | isBound =>
    intro s t stores
    have same : as.all (s.namesBinding e) = bs.all (t.namesBinding e) :=
      all_alike (fun _ _ alike => alike.namesBinding_eq (stores.isBound_eq e)) operands
    refine .value ?_ stores
    show Alike forms (.bool (as.all (s.namesBinding e))) _
    rw [same]
    exact .same _
  | toText => exact named _ _
  | toSymbol => exact named _ _
  | cons => exact related_ofExcept (Sequences.cons_alike operands)
  | head => exact related_ofExcept (Sequences.head_alike operands)
  | tail => exact related_ofExcept (Sequences.tail_alike operands)
  | list => exact related_pure (.list operands)
  | join => exact related_ofExcept (Sequences.join_alike operands)
  | newline => exact emits (fun _ => "") fun _ _ _ => rfl
  | globals => exact emits (·.rootLine e) fun _ _ stores => stores.rootLine_eq e

/-- The correspondence is lawful as soon as each form corresponds to itself and corresponding forms
have the same shape. -/
theorem upTo_lawful (self : ∀ p, forms p p) (shapes : ∀ p q, forms p q → (upTo forms).Shapes p q) :
    (upTo forms).Lawful where
  find e name s t stores := by
    have found := stores.lookup? e name
    unfold find
    generalize s.lookup? e name = f at found ⊢
    generalize t.lookup? e name = g at found ⊢
    cases found with
    | none => exact .fault (.refl _) stores
    | some values => exact .value values stores
  requireUnbound e name s t stores := by
    unfold requireUnbound
    rw [stores.isBound_eq e name]
    split
    · exact .fault (.refl _) stores
    · exact .value rfl stores
  bindName e name v w values s t stores := by
    unfold bindName
    rw [stores.binds_eq e name]
    split
    · exact .fault (.refl _) stores
    · exact .value rfl (stores.insert e name values)
  newFrame e s t stores := .value stores.size (stores.addChild e)
  newClosure params body body' e bodies s t stores := by
    refine .value ?_ ⟨stores.size, stores.frames, congrArg (· + 1) stores.stamps, stores.emitted⟩
    rw [stores.stamps]
    exact .closure bodies
  nil := .same _
  truthy _ _ alike := alike.truthy_eq
  bindingName _ _ alike := alike.bindingName_results
  procedures f g alike := by
    cases alike with
    | list => exact .other rfl rfl ⟨rfl, rfl⟩
    | closure bodies => exact .closure bodies
    | same =>
      cases f with
      | builtin b => exact .builtin fun e as bs operands => upTo_call b e as bs operands
      | closure => exact .closure (self _)
      | _ => exact .other rfl rfl ⟨rfl, rfl⟩
  shapes := shapes

end Correspondence

end SmallLisp
