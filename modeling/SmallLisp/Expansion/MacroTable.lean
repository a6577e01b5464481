import SmallLisp.Text.Ascending
import SmallLisp.Value.Basic

/-!
The table of macros: names and the procedures that expand their calls.
-/

namespace SmallLisp

/-- Macro names with their expanders, each name once. -/
structure MacroTable where
  entries : List (String × Value)

namespace MacroTable

def empty : MacroTable := ⟨[]⟩

def get? (t : MacroTable) (name : String) : Option Value :=
  t.entries.lookup name

def contains (t : MacroTable) (name : String) : Bool :=
  (t.get? name).isSome

/-- Defines a macro, in place of one of the same name. -/
def define (t : MacroTable) (name : String) (expander : Value) : MacroTable :=
  ⟨(name, expander) :: t.entries.filter (·.1 ≠ name)⟩

/-- The macro names, ascending by code points. -/
def names (t : MacroTable) : List String :=
  Text.ascending (t.entries.map Prod.fst)

def isEmpty (t : MacroTable) : Bool :=
  t.entries.isEmpty

theorem mem_of_get? {t : MacroTable} {name : String} {expander : Value}
    (found : t.get? name = some expander) : (name, expander) ∈ t.entries := by
  obtain ⟨before, after, split, -⟩ := List.lookup_eq_some_iff.mp found
  simp [split]

/-- A definition is found under its name, and all other macros stay as they are. -/
theorem get?_define (t : MacroTable) (name : String) (expander : Value) (other : String) :
    (t.define name expander).get? other = if other = name then some expander else t.get? other := by
  obtain ⟨entries⟩ := t
  by_cases same : other = name
  · simp [define, get?, same]
  · have kept : (entries.filter (·.1 ≠ name)).lookup other = entries.lookup other := by
      induction entries with
      | nil => rfl
      | cons entry entries ih =>
        obtain ⟨key, value⟩ := entry
        by_cases displaced : key = name
        · rw [List.filter_cons_of_neg (by simpa using displaced), ih, List.lookup_cons,
            displaced, beq_false_of_ne same]
        · rw [List.filter_cons_of_pos (by simpa using displaced), List.lookup_cons,
            List.lookup_cons, ih]
    simpa [define, get?, List.lookup_cons, beq_false_of_ne same, same] using kept

end MacroTable

end SmallLisp
