import SmallLisp.Proofs.Depth
import SmallLisp.Proofs.MacroFree
import SmallLisp.Proofs.Visibility

/-!
What a template means.

A template has holes: unquoted forms, and forms whose elements are spliced in. Without evaluation, the
list it describes is said by `Template.fill`, which puts given values in the holes. The form that a
template becomes does the same by calls of `join` and `++`: evaluating it comes to evaluating the
forms in the holes from left to right and filling the template with their values
(`quasiquote_fills`). Between two holes anything may be bound, but nothing that hides the two
procedures, so they still mean the same at the next call.
-/

namespace SmallLisp

open Run

theorem Value.items?_eq_some_iff {v : Value} {items : List Value} :
    v.items? = some items ↔ v = .list items := by
  cases v <;> simp [items?]

namespace Template

/-! ### Holes -/

/-- A part of a template that stands for the value of a form, or for the elements of this value. -/
structure Hole where
  splice : Bool
  form : Value

def hole? : Value → Option Hole
  | .list [.symbol name, form] =>
    if name = SpecialForm.unquote.name then some ⟨false, form⟩
    else if name = SpecialForm.unquoteSplicing.name then some ⟨true, form⟩
    else none
  | _ => none

mutual

/-- The names `unquote` and `unquote-splicing` stand in a template only where they make a hole. -/
def wellPlaced : Value → Bool
  | .symbol name =>
    name != SpecialForm.unquote.name && name != SpecialForm.unquoteSplicing.name
  | .list items => (hole? (.list items)).isSome || allWellPlaced items
  | _ => true

def allWellPlaced : List Value → Bool
  | [] => true
  | v :: vs => wellPlaced v && allWellPlaced vs

end

mutual

/-- The holes of a template, from left to right. -/
def holes : Value → List Hole
  | .list items =>
    match hole? (.list items) with
    | some hole => [hole]
    | none => itemHoles items
  | _ => []

def itemHoles : List Value → List Hole
  | [] => []
  | v :: vs => holes v ++ itemHoles vs

end

mutual

/-- A template with one value for each of its holes, from left to right, in the place of the hole. -/
def fill : Value → List Value → Value
  | .list items, values =>
    match hole? (.list items) with
    | some _ => values.headD .nil
    | none => .list (fillItems items values)
  | atom, _ => atom

/-- Some templates with values in the place of their holes. A splice that is one of them is replaced
by the elements of its value. -/
def fillItems : List Value → List Value → List Value
  | [], _ => []
  | v :: vs, values =>
    let filled := fill v (values.take (holes v).length)
    let others := fillItems vs (values.drop (holes v).length)
    if (hole? v).any Hole.splice then filled.items?.getD [] ++ others else filled :: others

end

example : fill (.list [.symbol "a", .list [.symbol "unquote-splicing", .symbol "xs"],
      .list [.list [.symbol "unquote", .symbol "y"], .list []]])
    [.list [.int 1, .int 2], .int 3] =
      .list [.symbol "a", .int 1, .int 2, .list [.int 3, .list []]] := rfl

/-- A value that may be put in a hole: for a splice it must be a list. -/
def Hole.Fits (hole : Hole) (v : Value) : Prop :=
  hole.splice = true → v.items?.isSome = true

/-- A hole is a list of one of the two names and a form. -/
theorem hole?_eq_some_iff {v : Value} {hole : Hole} :
    hole? v = some hole ↔
      v = .list [.symbol (if hole.splice then SpecialForm.unquoteSplicing else .unquote).name,
        hole.form] := by
  constructor
  · intro found
    unfold hole? at found
    split at found
    · split at found
      · next named =>
        cases found
        rw [named]
        rfl
      · split at found
        · next named =>
          cases found
          rw [named]
          rfl
        · cases found
    · cases found
  · rintro rfl
    obtain ⟨splice, form⟩ := hole
    cases splice <;> rfl

theorem allWellPlaced_iff {vs : List Value} :
    allWellPlaced vs = true ↔ ∀ v ∈ vs, wellPlaced v = true := by
  induction vs with
  | nil => simp [allWellPlaced]
  | cons v vs ih => simp [allWellPlaced, ih]

/-- By themselves the two names are never well placed. -/
theorem not_wellPlaced_symbol {kind : SpecialForm}
    (either : kind = .unquote ∨ kind = .unquoteSplicing) :
    wellPlaced (.symbol kind.name) = false := by
  rcases either with rfl | rfl <;> rfl

/-- In a well-placed template, a list headed by one of the two names is a hole. -/
theorem operands_of_wellPlaced {kind : SpecialForm} {operands : List Value}
    (either : kind = .unquote ∨ kind = .unquoteSplicing)
    (placed : wellPlaced (.list (.symbol kind.name :: operands)) = true) :
    ∃ form, operands = [form] := by
  rw [wellPlaced, Bool.or_eq_true] at placed
  rcases placed with some | items
  · obtain ⟨hole, found⟩ := Option.isSome_iff_exists.mp some
    have written := hole?_eq_some_iff.mp found
    simp only [Value.list.injEq, List.cons.injEq] at written
    exact ⟨hole.form, written.2⟩
  · have head := allWellPlaced_iff.mp items _ List.mem_cons_self
    rw [not_wellPlaced_symbol either] at head
    cases head

/-! ### How a template is built -/

section Build

variable {σ : Type} (expand : Value → Run σ Value)

/-- An unquoted form is built by itself. -/
theorem build_hole {template : Value} {hole : Hole} (found : hole? template = some hole)
    (unquoted : hole.splice = false) : build expand template = expand hole.form := by
  rw [hole?_eq_some_iff.mp found, unquoted]
  rfl

/-- A splice is concatenated with what is built of the rest. -/
theorem buildItems_splice {head : Value} {hole : Hole} (found : hole? head = some hole)
    (spliced : hole.splice = true) (rest : List Value) :
    buildItems expand (head :: rest) = (do
      let tail ← buildItems expand rest
      let elements ← expand hole.form
      pure (call .concat elements tail)) := by
  rw [hole?_eq_some_iff.mp found, spliced]
  simp [buildItems, Value.symbolName?, spliceOperands?]

theorem buildItems_element {head : Value} (placed : wellPlaced head = true)
    (noSplice : (hole? head).any Hole.splice = false) (rest : List Value) :
    buildItems expand (head :: rest) = (do
      let tail ← buildItems expand rest
      let element ← build expand head
      pure (call .join element tail)) := by
  have notNamed : ∀ kind : SpecialForm, kind = .unquote ∨ kind = .unquoteSplicing →
      head.symbolName? ≠ some kind.name := by
    intro kind either named
    cases head with
    | symbol name =>
      cases named
      rw [not_wellPlaced_symbol either] at placed
      cases placed
    | _ => cases named
  have noOperands : spliceOperands? head = none := by
    refine Option.eq_none_iff_forall_ne_some.mpr fun operands splice => ?_
    have headed := spliceOperands?_eq_some_iff.mp splice
    rw [headed] at placed
    obtain ⟨form, single⟩ := operands_of_wellPlaced (.inr rfl) placed
    rw [headed, single] at noSplice
    cases noSplice
  conv => lhs; unfold buildItems
  rw [if_neg (notNamed .unquote (.inl rfl)), if_neg (notNamed .unquoteSplicing (.inr rfl))]
  simp only [noOperands]

end Build

/-! ### What the built form does -/

/-- As seen from the frame `e`, the two names that built forms call are those of the procedures. -/
structure Ready (e : FrameId) (s : Store) : Prop where
  join : s.lookup? e Builtin.join.name = some (.builtin .join)
  concat : s.lookup? e Builtin.concat.name = some (.builtin .concat)

variable {e : FrameId} {s t : Store}

/-- No evaluation can change what the two names mean. -/
theorem Ready.of_yields (ready : Ready e s) {form v : Value} (yields : Yields e form s v t) :
    Ready e t := by
  obtain ⟨depth, ran⟩ := yields
  have hides := evaluate_hidesNothing depth e form s
  rw [ran] at hides
  exact ⟨hides.keeps _ _ ready.join, hides.keeps _ _ ready.concat⟩

/-- Evaluating `f` comes to evaluating `forms` from left to right; if the values fit in the holes, the
result is made from them, and otherwise there is none. -/
def Builds (e : FrameId) (f : Value) (forms : List Value) (holes : List Hole)
    (make : List Value → Value) : Prop :=
  ∀ s, Ready e s → ∀ v t, Yields e f s v t ↔
    ∃ values, YieldsAll e forms s values t ∧ List.Forall₂ Hole.Fits holes values ∧ v = make values

/-- What is quoted needs no value. -/
theorem builds_quoted (e : FrameId) (datum : Value) :
    Builds e (quoted datum) [] [] fun _ => datum := by
  intro s _ v t
  rw [quoted, yields_quote_iff]
  constructor
  · rintro ⟨rfl, rfl⟩
    exact ⟨[], .nil, .nil, rfl⟩
  · rintro ⟨values, yields, _, rfl⟩
    cases yields
    exact ⟨rfl, rfl⟩

theorem builds_unquoted (e : FrameId) (f : Value) {hole : Hole} (unquoted : hole.splice = false) :
    Builds e f [f] [hole] fun values => values.headD .nil := by
  intro s _ v t
  constructor
  · intro yields
    have fits : hole.Fits v := fun spliced => by simp [unquoted] at spliced
    exact ⟨[v], .cons yields .nil, .cons fits .nil, rfl⟩
  · rintro ⟨values, yields, _, rfl⟩
    obtain _ | ⟨yields, none⟩ := yields
    cases none
    exact yields

/-- A call of two operands evaluates them from left to right and then calls the procedure. -/
theorem yields_call_two_iff {b : Builtin} {f g v : Value}
    (ordinary : SpecialForm.ofName? b.name = none)
    (found : s.lookup? e b.name = some (.builtin b)) :
    Yields e (call b f g) s v t ↔ ∃ x u y w,
      Yields e f s x u ∧ Yields e g u y w ∧ b.call [x, y] e w = (.value v, t) := by
  rw [call, yields_call_iff ordinary found]
  constructor
  · rintro ⟨values, w, yields, called⟩
    obtain _ | ⟨first, _ | ⟨second, none⟩⟩ := yields
    cases none
    exact ⟨_, _, _, _, first, second, called⟩
  · rintro ⟨x, u, y, w, first, second, called⟩
    exact ⟨[x, y], w, .cons first (.cons second .nil), called⟩

/-- Putting an element before a list takes the values of both, the first ones for the element. -/
theorem builds_join {f g : Value} {forms forms' : List Value} {holes holes' : List Hole}
    {make : List Value → Value} {items : List Value → List Value}
    (sizes : forms.length = holes.length) (element : Builds e f forms holes make)
    (tail : Builds e g forms' holes' fun values => .list (items values)) :
    Builds e (call .join f g) (forms ++ forms') (holes ++ holes') fun values =>
      .list (make (values.take holes.length) :: items (values.drop holes.length)) := by
  intro s ready v t
  rw [yields_call_two_iff rfl ready.join]
  constructor
  · rintro ⟨x, u, y, w, first, second, called⟩
    obtain ⟨as, before, fits, rfl⟩ := (element s ready x u).mp first
    obtain ⟨bs, after, fits', rfl⟩ := (tail u (ready.of_yields first) y w).mp second
    cases called
    refine ⟨as ++ bs, yieldsAll_append_iff.mpr ⟨as, u, bs, before, after, rfl⟩,
      List.rel_append fits fits', ?_⟩
    simp [fits.length_eq]
  · rintro ⟨values, yields, fits, rfl⟩
    obtain ⟨as, u, bs, before, after, rfl⟩ := yieldsAll_append_iff.mp yields
    -- The values split where the forms do, so the ones that fit the first holes are the first ones.
    have size : as.length = holes.length := before.length_eq.trans sizes
    have fits₁ := List.forall₂_take_append _ _ _ fits
    have fits₂ := List.forall₂_drop_append _ _ _ fits
    simp only [size, List.take_left, List.drop_left] at fits₁ fits₂
    have first := (element s ready _ u).mpr ⟨as, before, fits₁, rfl⟩
    have second := (tail u (ready.of_yields first) _ t).mpr ⟨bs, after, fits₂, rfl⟩
    refine ⟨_, u, _, t, first, second, ?_⟩
    simp only [← size, List.take_left, List.drop_left]
    rfl

/-- With a list behind it, only a list can be concatenated. -/
theorem concat_list_eq_ok_iff {x v : Value} {items : List Value} :
    Sequences.concat [x, .list items] = .ok v ↔
      ∃ elements, x = .list elements ∧ v = .list (elements ++ items) := by
  cases x with
  | list elements =>
    constructor
    · intro joined
      cases joined
      exact ⟨elements, rfl, by simp⟩
    · rintro ⟨elements', same, rfl⟩
      cases same
      simp [Sequences.concat, Sequences.lists?]
  | _ => simp [Sequences.concat, Sequences.lists?, Sequences.texts?]

/-- A splice takes one value, whose elements come before the list. -/
theorem builds_concat (f : Value) {g : Value} {forms : List Value} {hole : Hole}
    {holes : List Hole} {items : List Value → List Value} (spliced : hole.splice = true)
    (tail : Builds e g forms holes fun values => .list (items values)) :
    Builds e (call .concat f g) (f :: forms) (hole :: holes) fun values =>
      .list ((values.headD .nil).items?.getD [] ++ items (values.drop 1)) := by
  intro s ready v t
  rw [yields_call_two_iff rfl ready.concat]
  constructor
  · rintro ⟨x, u, y, w, first, second, called⟩
    obtain ⟨bs, after, fits, rfl⟩ := (tail u (ready.of_yields first) y w).mp second
    obtain ⟨joined, rfl⟩ := ofExcept_eq_value_iff.mp called
    obtain ⟨elements, rfl, rfl⟩ := concat_list_eq_ok_iff.mp joined
    exact ⟨_ :: bs, .cons first after, .cons (fun _ => rfl) fits, rfl⟩
  · rintro ⟨values, yields, fits, rfl⟩
    obtain _ | ⟨first, after⟩ := yields
    obtain _ | ⟨here, fits⟩ := fits
    obtain ⟨elements, given⟩ := Option.isSome_iff_exists.mp (here spliced)
    have second := (tail _ (ready.of_yields first) _ t).mpr ⟨_, after, fits, rfl⟩
    refine ⟨_, _, _, t, first, second, ofExcept_eq_value_iff.mpr ⟨?_, rfl⟩⟩
    refine concat_list_eq_ok_iff.mpr ⟨elements, Value.items?_eq_some_iff.mp given, ?_⟩
    simp [given]

/-! ### The induction over templates -/

section Fills

variable {σ : Type} {w w' : σ} {heads : List SpecialForm} {expand : Value → Run σ Value}
  (rests : ∀ form, form.avoids heads = true → Rests w (fun _ => True) (expand form)) {f : Value}

theorem form_avoids {template : Value} {hole : Hole} (found : hole? template = some hole)
    (avoids : template.avoids heads = true) : hole.form.avoids heads = true := by
  rw [hole?_eq_some_iff.mp found] at avoids
  exact (Value.avoids_list_iff.mp avoids).2 _ (by simp)

theorem holes_of_hole {template : Value} {hole : Hole} (found : hole? template = some hole) :
    holes template = [hole] := by
  cases template with
  | list items => rw [holes, found]
  | _ => cases found

theorem fill_of_hole {template : Value} {hole : Hole} (found : hole? template = some hole) :
    fill template = fun values => values.headD .nil := by
  cases template with
  | list items =>
    funext values
    rw [fill, found]
  | _ => cases found

/-- The elements of a spliced value stand in the place of the splice. -/
theorem fillItems_splice {v : Value} {hole : Hole} (found : hole? v = some hole)
    (spliced : hole.splice = true) (vs values : List Value) :
    fillItems (v :: vs) values =
      (values.headD .nil).items?.getD [] ++ fillItems vs (values.drop 1) := by
  cases values <;> simp [fillItems, found, spliced, holes_of_hole found, fill_of_hole found]

include rests

mutual

/-- The form that a template becomes fills the template. -/
theorem build_fills : ∀ template : Value, wellPlaced template = true →
    (hole? template).any Hole.splice = false → template.avoids heads = true → ∀ {f w'},
    build expand template w = (.value f, w') → ∃ forms,
      List.Forall₂ (fun hole form => hole.form.avoids heads = true ∧
        expand hole.form w = (.value form, w)) (holes template) forms ∧
        ∀ e, Builds e f forms (holes template) (fill template)
  | .list items, placed, noSplice, avoids, f, w', built => by
    cases found : hole? (.list items) with
    | some hole =>
      have unquoted : hole.splice = false := by simpa [found] using noSplice
      have operand := form_avoids found avoids
      rw [build_hole expand found unquoted] at built
      obtain ⟨rfl, -⟩ := (rests _ operand).of_eq_value built
      rw [holes_of_hole found, fill_of_hole found]
      exact ⟨[f], .cons ⟨operand, built⟩ .nil, fun e => builds_unquoted e f unquoted⟩
    | none =>
      -- Only a list that is no hole is built element by element, so all its elements are well placed.
      rw [wellPlaced, found, Option.isSome_none, Bool.false_or, allWellPlaced_iff] at placed
      have same : holes (.list items) = itemHoles items ∧
          fill (.list items) = fun values => .list (fillItems items values) := by
        refine ⟨by rw [holes, found], funext fun values => by rw [fill, found]⟩
      rw [same.1, same.2]
      rw [build] at built
      exact buildItems_fills items placed (Value.avoids_list_iff.mp avoids).2 built
  | .int _, _, _, _, _, _, built | .real _, _, _, _, _, _, built
  | .bool _, _, _, _, _, _, built | .marker _, _, _, _, _, _, built
  | .text _, _, _, _, _, _, built | .symbol _, _, _, _, _, _, built
  | .closure .., _, _, _, _, _, built | .builtin _, _, _, _, _, _, built
  | .nil, _, _, _, _, _, built => by
    cases built
    exact ⟨[], .nil, fun e => builds_quoted e _⟩

theorem buildItems_fills : ∀ items : List Value, (∀ v ∈ items, wellPlaced v = true) →
    (∀ v ∈ items, v.avoids heads = true) → ∀ {f w'},
    buildItems expand items w = (.value f, w') → ∃ forms,
      List.Forall₂ (fun hole form => hole.form.avoids heads = true ∧
        expand hole.form w = (.value form, w)) (itemHoles items) forms ∧
        ∀ e, Builds e f forms (itemHoles items) fun values => .list (fillItems items values)
  | [], _, _, _, _, built => by
    cases built
    exact ⟨[], .nil, fun e => builds_quoted e _⟩
  | head :: rest, placed, avoids, f, w', built => by
    obtain ⟨headPlaced, restPlaced⟩ := List.forall_mem_cons.mp placed
    obtain ⟨headAvoids, restAvoids⟩ := List.forall_mem_cons.mp avoids
    -- The rest is expanded before the head but evaluated after it. Expansion leaves the workspace
    -- alone, so each part is expanded as it would be first.
    have tailRests := buildItems_rests rests rest restAvoids
    cases noSplice : (hole? head).any Hole.splice with
    | true =>
      obtain ⟨hole, found, spliced⟩ := (Option.any_eq_true _ _).mp noSplice
      have operand := form_avoids found headAvoids
      rw [buildItems_splice expand found spliced] at built
      obtain ⟨tail, -, builtTail, afterTail⟩ := tailRests.of_bind_eq_value built
      obtain ⟨form, -, expanded, done⟩ := (rests _ operand).of_bind_eq_value afterTail
      obtain ⟨rfl, -⟩ := pure_eq_value_iff.mp done
      obtain ⟨forms, expansions, builds⟩ := buildItems_fills rest restPlaced restAvoids builtTail
      simp only [itemHoles, holes_of_hole found, List.singleton_append,
        fillItems_splice found spliced]
      exact ⟨form :: forms, .cons ⟨operand, expanded⟩ expansions,
        fun e => builds_concat form spliced (builds e)⟩
    | false =>
      rw [buildItems_element expand headPlaced noSplice] at built
      obtain ⟨tail, -, builtTail, afterTail⟩ := tailRests.of_bind_eq_value built
      obtain ⟨element, -, builtElement, done⟩ :=
        (build_rests rests head headAvoids).of_bind_eq_value afterTail
      obtain ⟨rfl, -⟩ := pure_eq_value_iff.mp done
      obtain ⟨forms, expansions, builds⟩ := build_fills head headPlaced noSplice headAvoids builtElement
      obtain ⟨forms', expansions', builds'⟩ := buildItems_fills rest restPlaced restAvoids builtTail
      refine ⟨forms ++ forms', List.rel_append expansions expansions', fun e => ?_⟩
      have joins := builds_join expansions.length_eq.symm (builds e) (builds' e)
      simpa [itemHoles, fillItems, noSplice] using joins

end

end Fills

end Template

open Template in
/-- A template without stray holes becomes a form that fills it: evaluating this form gives a value
exactly if the forms in the holes, expanded and evaluated from left to right, all give values, lists
where they are spliced. The value is then the template filled with them, and the store is the one that
evaluating them leaves. -/
theorem quasiquote_fills {depth : Nat} {e₀ : FrameId} {s₀ : Store} {w : Workspace}
    {template f : Value} (placed : wellPlaced template = true)
    (noSplice : (hole? template).any Hole.splice = false)
    (noDefinition : template.avoids [.defineMacro] = true)
    (expanded : expand (depth + 1) e₀ (.list [.symbol "quasiquote", template]) ⟨s₀, .empty⟩ =
      (.value (some f), w)) :
    ∃ forms,
      List.Forall₂ (fun hole form => expand depth e₀ hole.form ⟨s₀, .empty⟩ =
        (.value (some form), ⟨s₀, .empty⟩)) (holes template) forms ∧
      ∀ (e : FrameId) (s : Store),
        s.lookup? e "join" = some (.builtin .join) → s.lookup? e "++" = some (.builtin .concat) →
        ∀ v t, Yields e f s v t ↔ ∃ values, YieldsAll e forms s values t ∧
          List.Forall₂ Hole.Fits (holes template) values ∧ v = fill template values := by
  have rests := expand_rests (w := ⟨s₀, .empty⟩) rfl (List.mem_singleton_self _) e₀ depth
  have required := Expander.required_rests rests
  have special : expand (depth + 1) e₀ (.list [.symbol "quasiquote", template]) =
      (expand depth e₀).special depth e₀ .quasiquote [template] :=
    Expander.step_special _ depth e₀ .quasiquote [template]
  rw [special] at expanded
  obtain ⟨built, -, builds, given⟩ :=
    (build_rests required template noDefinition).of_bind_eq_value expanded
  obtain ⟨same, -⟩ := pure_eq_value_iff.mp given
  cases same
  obtain ⟨forms, expansions, fills⟩ := build_fills required template placed noSplice noDefinition builds
  refine ⟨forms, expansions.imp fun hole form expansion => ?_, fun e s join concat => ?_⟩
  · exact (Expander.required_eq_value (rests _ expansion.1) expansion.2).2
  · exact fills e s ⟨join, concat⟩

open Template in
/-- Two splices side by side, the second of which binds a name that a nested template unquotes. -/
theorem quasiquote_fills_nested :
    let splice : Value → Value := fun form => .list [.symbol "unquote-splicing", form]
    let pair : Value := .list [.symbol "list", .int 1, .int 2]
    let binding : Value := .list [.symbol "bind", .symbol "y", .list [.symbol "list"]]
    let inner : Value := .list [.list [.symbol "unquote", .symbol "y"]]
    let template : Value := .list [.symbol "a", splice pair, splice binding, inner, .list []]
    let start : Workspace := Session.start.workspace
    wellPlaced template = true ∧ (hole? template).any Hole.splice = false ∧
      template.avoids [.defineMacro] = true ∧
      ∃ f forms, expand 6 0 (.list [.symbol "quasiquote", template]) start =
          (.value (some f), start) ∧
        ∀ v t, Yields 0 f start.store v t ↔ ∃ values, YieldsAll 0 forms start.store values t ∧
          List.Forall₂ Hole.Fits (holes template) values ∧ v = fill template values := by
  intro splice pair binding inner template start
  have expanded : ∃ f, expand 6 0 (.list [.symbol "quasiquote", template]) start =
      (.value (some f), start) := ⟨_, rfl⟩
  obtain ⟨f, expanded⟩ := expanded
  obtain ⟨forms, -, fills⟩ :=
    @quasiquote_fills 5 0 start.store start template f rfl rfl rfl expanded
  exact ⟨rfl, rfl, rfl, f, forms, expanded, fills 0 start.store rfl rfl⟩

end SmallLisp
