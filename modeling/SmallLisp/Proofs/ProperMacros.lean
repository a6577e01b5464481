import SmallLisp.Proofs.Blame
import SmallLisp.Proofs.Soundness

/-!
The macro table of a session.

A macro is defined only with a procedure and only under a name that heads no special form, and a
definition displaces at most the macro of the same name. So a `Proper` table stays proper and keeps
its names through every step of expansion, wherever that ends or is given up, and hence through the
lines of a session (`Session.after_extends`). From a proper table, a call of a macro applies a
procedure, and special forms are out of the reach of macros.
-/

namespace SmallLisp

open Run

/-! ### Tables -/

namespace MacroTable

/-- All macros are expanded by procedures, and none is named like a special form. -/
def Proper (t : MacroTable) : Prop :=
  ∀ entry ∈ t.entries, entry.2.isCallable = true ∧ SpecialForm.ofName? entry.1 = none

instance (t : MacroTable) : Decidable t.Proper :=
  inferInstanceAs (Decidable (∀ entry ∈ t.entries, _))

/-- The macros of `t` are defined in `u` too, perhaps anew, and `u` is proper if `t` is. -/
structure Extends (t u : MacroTable) : Prop where
  contains : ∀ name, t.contains name = true → u.contains name = true
  proper : t.Proper → u.Proper

variable {t : MacroTable} {name : String} {f : Value}

/-- What expands a macro of a proper table can be called, and its name is no special form. -/
theorem Proper.get? (proper : t.Proper) (found : t.get? name = some f) :
    f.isCallable = true ∧ SpecialForm.ofName? name = none :=
  proper (name, f) (mem_of_get? found)

/-- A proper table has nothing for a special form. -/
theorem Proper.get?_special (proper : t.Proper) (kind : SpecialForm) : t.get? kind.name = none := by
  cases found : t.get? kind.name with
  | none => rfl
  | some f =>
    have ordinary := (proper.get? found).2
    rw [SpecialForm.ofName?_name] at ordinary
    cases ordinary

/-- Defining a macro as expansion does it extends the table. -/
theorem extends_define (t : MacroTable) (ordinary : SpecialForm.ofName? name = none)
    (callable : f.isCallable = true) : t.Extends (t.define name f) where
  contains other defined := by
    unfold contains at defined ⊢
    rw [get?_define]
    split
    · rfl
    · exact defined
  proper proper := by
    refine List.forall_mem_cons.mpr ⟨⟨callable, ordinary⟩, fun entry member => ?_⟩
    exact proper entry (List.mem_of_mem_filter member)

instance : IsPreorder MacroTable Extends where
  refl _ := ⟨fun _ defined => defined, fun proper => proper⟩
  trans _ _ _ first second :=
    ⟨fun name defined => second.contains name (first.contains name defined),
      fun proper => second.proper (first.proper proper)⟩

end MacroTable

/-! ### Expansion -/

/-- The macro table of a workspace is extended; the store may change. -/
def Workspace.Extends (w w' : Workspace) : Prop :=
  w.macros.Extends w'.macros

instance : IsPreorder Workspace Workspace.Extends where
  refl w := refl_of MacroTable.Extends w.macros
  trans _ _ _ := trans_of MacroTable.Extends

/-- A computation on the store alone leaves the macros as they are. -/
theorem onStore_extends {α : Type} (x : Run Store α) :
    Moves Workspace.Extends (Workspace.onStore x) :=
  fun w => refl_of MacroTable.Extends w.macros

/-- Expansion of a form changes the table in one place, by a definition that has been checked. -/
theorem Expander.step_extends {expand : Expander}
    (moves : ∀ form, Moves Workspace.Extends (expand form)) (depth : Nat) (e : FrameId)
    (form : Value) : Moves Workspace.Extends (expand.step depth e form) := by
  refine step_moves moves (fun form => ?_) (fun name f ordinary callable w => ?_)
    (fun f operands => ?_) form
  · exact onStore_extends _
  · exact w.macros.extends_define ordinary callable
  · exact onStore_extends _

/-- Wherever expansion ends or is given up, it has extended the macro table. -/
theorem expandUntil_extends (stop : Value → Workspace → Bool) (e : FrameId) :
    ∀ depth form, Moves Workspace.Extends (expandUntil stop depth e form)
  | 0, _ => moves_exhaust
  | depth + 1, form => by
    intro w
    unfold expandUntil
    split
    · exact refl_of Workspace.Extends w
    · exact Expander.step_extends (expandUntil_extends stop e depth) depth e form w

/-- By induction on the depth, expansion only extends the table. -/
theorem expand_extends (depth : Nat) (e : FrameId) (form : Value) :
    Moves Workspace.Extends (expand depth e form) := by
  rw [← expandUntil_never]
  exact expandUntil_extends _ e depth form

/-- A call of a macro is replaced by the expansion of what its expander makes of the operands. -/
theorem Expander.step_macro (expand : Expander) (depth : Nat) (e : FrameId) {name : String}
    (ordinary : SpecialForm.ofName? name = none) {w : Workspace} {f : Value}
    (found : w.macros.get? name = some f) (operands : List Value) :
    expand.step depth e (.list (.symbol name :: operands)) w =
      (Workspace.onStore (apply depth f operands e) >>= expand) w := by
  simp only [step, ordinary]
  rw [bind_apply]
  simp [Run.read, found]

/-! ### Sessions -/

namespace Session

theorem carryOut_extends (e : FrameId) (form : Value) :
    Moves Workspace.Extends (carryOut e form) := by
  refine (expand_extends depth e form).bind fun expanded => ?_
  split
  · exact moves_pure _
  · exact (onStore_extends _).bind fun _ => moves_pure _

/-- A line extends the table, also when it fails. -/
theorem line_extends (session : Session) (source : String) :
    Workspace.Extends session.workspace (session.line source).2.workspace := by
  obtain same | ⟨form, carried⟩ := line_session session source
  · rw [same]
    exact refl_of Workspace.Extends _
  · rw [carried]
    exact carryOut_extends session.root form session.workspace

/-- Any lines, failing ones included, extend the macro table. -/
theorem after_extends (session : Session) (lines : List String) :
    Workspace.Extends session.workspace (session.after lines).workspace := by
  induction lines generalizing session with
  | nil => exact refl_of Workspace.Extends _
  | cons source lines ih =>
    exact trans_of Workspace.Extends (line_extends session source) (ih (session.line source).2)

end Session

/-- The macro table of a session stays proper. After any lines, failing ones included, all macros
are expanded by procedures and none is named like a special form, and no further lines take a name
out of the table; the same holds wherever the expansion of a form is given up in the middle. A call
of a macro then applies its expander, and whatever goes wrong in that, it is not that the expander
is no function. No macro is found for a special form, which is expanded as such. -/
theorem macros_stay_proper (lines : List String) :
    let session := Session.start.after lines
    session.workspace.macros.Proper ∧
    (∀ more name, session.workspace.macros.contains name = true →
      (session.after more).workspace.macros.contains name = true) ∧
    ∀ stop depth e form,
      let w := (expandUntil stop depth e form session.workspace).2
      w.macros.Proper ∧
      (∀ name, session.workspace.macros.contains name = true → w.macros.contains name = true) ∧
      (∀ name f, w.macros.get? name = some f → ∀ depth e operands,
        expand (depth + 1) e (.list (.symbol name :: operands)) w =
          (Workspace.onStore (apply depth f operands e) >>= expand depth e) w ∧
        ∀ s t, apply depth f operands e s ≠ (.fault (.notFunction f), t)) ∧
      ∀ kind : SpecialForm, w.macros.get? kind.name = none ∧ ∀ depth e operands,
        expand (depth + 1) e (.list (.symbol kind.name :: operands)) w =
          (expand depth e).special depth e kind operands w := by
  intro session
  have proper : session.workspace.macros.Proper :=
    (Session.start.after_extends lines).proper (by decide)
  refine ⟨proper, fun more => (session.after_extends more).contains, ?_⟩
  intro stop depth e form w
  have extended : session.workspace.macros.Extends w.macros :=
    expandUntil_extends stop e depth form session.workspace
  refine ⟨extended.proper proper, extended.contains, ?_, fun kind => ⟨?_, ?_⟩⟩
  · intro name f found depth e operands
    obtain ⟨callable, ordinary⟩ := (extended.proper proper).get? found
    refine ⟨Expander.step_macro _ depth e ordinary found operands, fun s t failed => ?_⟩
    have plain := Fault.founded_notFunction_iff.mp (apply_founded depth f operands e s _ t failed)
    rw [callable] at plain
    cases plain
  · exact (extended.proper proper).get?_special kind
  · intro depth e operands
    rw [expand, Expander.step_special]

/-- A line that fails after it has defined a macro leaves the macro in the table, and so do a line
that cannot be read and one that fails to define the macro anew. -/
theorem macros_stay_proper_failing_line :
    let session := Session.start.after ["(do (defmacro m +) (if 1))"]
    (Session.start.line "(do (defmacro m +) (if 1))").1 =
        .failed (.execution (.wrongShape .branch (.list [.symbol "if", .int 1]))) ∧
      session.workspace.macros.get? "m" = some (.builtin .add) ∧
      session.workspace.macros.Proper ∧
      (session.after ["(", "(defmacro m 1)"]).workspace.macros.contains "m" = true ∧
      ∀ s t, apply 7 (.builtin .add) [.int 1, .int 2] 0 s ≠
        (.fault (.notFunction (.builtin .add)), t) := by
  let misshapen := Value.list [.symbol "if", .int 1]
  let form := Value.list [.symbol "do",
    .list [.symbol "defmacro", .symbol "m", .symbol "+"], misshapen]
  let defined : Workspace := ⟨Session.start.workspace.store, ⟨[("m", .builtin .add)]⟩⟩
  have isRead : read "(do (defmacro m +) (if 1))".toList = .ok form := rfl
  have carried : Session.carryOut 0 form Session.start.workspace =
      (.fault (.wrongShape .branch misshapen), defined) :=
    Session.carryOut_eq_fault 3 (by decide) fun _ => rfl
  have ran : Session.start.line "(do (defmacro m +) (if 1))" =
      (.failed (.execution (.wrongShape .branch misshapen)), ⟨defined, 0⟩) := by
    simp only [Session.line, Session.start, isRead]
    exact congrArg (fun result => (Session.resultOf result.1, Session.mk result.2 0)) carried
  have reached : Session.start.after ["(do (defmacro m +) (if 1))"] = ⟨defined, 0⟩ :=
    congrArg Prod.snd ran
  have main := macros_stay_proper ["(do (defmacro m +) (if 1))"]
  rw [reached] at main ⊢
  obtain ⟨proper, stays, inside⟩ := main
  refine ⟨congrArg Prod.fst ran, rfl, proper, stays _ "m" rfl, ?_⟩
  exact ((inside (fun _ _ => true) 0 0 .nil).2.2.1 "m" _ rfl 7 0 _).2

end SmallLisp
