/-!
Names in ascending order of their code points.
-/

namespace SmallLisp.Text

/-- Puts a name into an ascending list, before the first name that is not smaller. -/
def insertName (name : String) : List String → List String
  | [] => [name]
  | first :: rest =>
    if name ≤ first then name :: first :: rest else first :: insertName name rest

def ascending (names : List String) : List String :=
  names.foldr insertName []

/-- A name is put in, and none is lost. -/
theorem insertName_perm (name : String) (names : List String) :
    (insertName name names).Perm (name :: names) := by
  induction names with
  | nil => exact .refl _
  | cons first rest ih =>
    unfold insertName
    split
    · exact .refl _
    · exact (ih.cons first).trans (.swap name first rest)

/-- Sorting keeps every name as often as it was there. -/
theorem ascending_perm (names : List String) : (ascending names).Perm names := by
  induction names with
  | nil => exact .refl _
  | cons name rest ih => exact (insertName_perm name (ascending rest)).trans (ih.cons name)

theorem insertName_pairwise (name : String) {names : List String}
    (sorted : names.Pairwise (· ≤ ·)) : (insertName name names).Pairwise (· ≤ ·) := by
  induction names with
  | nil => exact List.pairwise_singleton _ _
  | cons first rest ih =>
    obtain ⟨least, tail⟩ := List.pairwise_cons.1 sorted
    unfold insertName
    split
    next below =>
      refine List.pairwise_cons.2 ⟨fun other present => ?_, sorted⟩
      rcases List.mem_cons.1 present with rfl | present
      · exact below
      · exact String.le_trans below (least other present)
    next above =>
      refine List.pairwise_cons.2 ⟨fun other present => ?_, ih tail⟩
      rcases List.mem_cons.1 ((insertName_perm name rest).mem_iff.1 present) with rfl | present
      · exact (String.le_total other first).resolve_left above
      · exact least other present

/-- Sorted names ascend. -/
theorem ascending_pairwise (names : List String) : (ascending names).Pairwise (· ≤ ·) := by
  induction names with
  | nil => exact .nil
  | cons name rest ih => exact insertName_pairwise name ih

end SmallLisp.Text
