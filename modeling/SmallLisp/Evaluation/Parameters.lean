import SmallLisp.Fault

/-!
Parameter lists: lists of distinct symbols.
-/

namespace SmallLisp

/-- The names of the items, which have to be symbols that differ from each other and from the names
already `seen`. -/
def parameterNamesFrom (seen : List String) : List Value → Except ParameterFault (List String)
  | [] => .ok []
  | .symbol name :: items =>
    if name ∈ seen then .error (.duplicate name)
    else (parameterNamesFrom (name :: seen) items).map (name :: ·)
  | item :: _ => .error (.notSymbol item)

def parameterNames (phase : Phase) (params : Value) : Except Fault (List String) :=
  match params with
  | .list items =>
    match parameterNamesFrom [] items with
    | .ok names => .ok names
    | .error cause => .error (.parameters phase cause)
  | form => .error (.parameters phase (.notList form))

/-- What counts as a parameter list is the same in expansion and in evaluation. -/
theorem parameterNames_phase {phase : Phase} {params : Value} {names : List String}
    (named : parameterNames phase params = .ok names) (other : Phase) :
    parameterNames other params = .ok names := by
  unfold parameterNames at named ⊢
  split at named
  · next items =>
    cases items : parameterNamesFrom [] items with
    | ok found => simpa [items] using named
    | error cause => simp [items] at named
  · cases named

/-- All that can be wrong with a parameter list is reported as such, with the phase. -/
theorem parameterNames_error {phase : Phase} {params : Value} {cause : Fault}
    (failed : parameterNames phase params = .error cause) :
    ∃ detail, cause = .parameters phase detail := by
  unfold parameterNames at failed
  split at failed
  · split at failed
    · cases failed
    · cases failed
      exact ⟨_, rfl⟩
  · cases failed
    exact ⟨_, rfl⟩

/-- Several forms in a sequence as one form; a single form stands for itself. -/
def bodyForm : List Value → Value
  | [single] => single
  | forms => .list (.symbol SpecialForm.sequence.name :: forms)

end SmallLisp
