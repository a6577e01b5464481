import Mathlib.Data.List.Basic
import SmallLisp.Shell.FileTree

/-!
Files that were saved.

Neither a new folder nor a new file takes a folder away, so that a path leads to the same place
afterwards (`follow_keepsFolders`). From this, what was saved at a path is found there, and the path
is still one to save at (`contents_of_save`).
-/

namespace SmallLisp.FileTree

/-- Every text can be saved at the path. -/
def Writable (t : FileTree) (path : String) : Prop :=
  ∀ text, (t.save path text).2 = none

/-! ### Folders -/

/-- A place is a folder if no name leads to it, or if it lies on the way to something. -/
theorem isFolder_iff (t : FileTree) (place : List String) :
    t.isFolder place = true ↔
      (∀ segment ∈ place, segment = "" ∨ segment = "..") ∨
        (∃ folder ∈ t.folders, place <+: folder) ∨
        ∃ file ∈ t.files, place <+: file.1 ∧ place ≠ file.1 := by
  simp [isFolder, or_assoc]

/-- A file makes folders of the places on the way to it. -/
theorem isFolder_put (t : FileTree) (place here : List String) (bytes : ByteArray) :
    (t.put place bytes).isFolder here = true ↔
      t.isFolder here = true ∨ here <+: place ∧ here ≠ place := by
  simp only [isFolder_iff, put, List.exists_mem_cons_iff, List.mem_filter]
  constructor
  · rintro (no | folder | way | ⟨file, ⟨mem, -⟩, way⟩)
    · exact .inl (.inl no)
    · exact .inl (.inr (.inl folder))
    · exact .inr way
    · exact .inl (.inr (.inr ⟨file, mem, way⟩))
  · rintro ((no | folder | ⟨file, mem, way⟩) | way)
    · exact .inl no
    · exact .inr (.inl folder)
    · by_cases replaced : file.1 = place
      · exact .inr (.inr (.inl (replaced ▸ way)))
      · exact .inr (.inr (.inr ⟨file, ⟨mem, by simpa using replaced⟩, way⟩))
    · exact .inr (.inr (.inl way))

/-- All folders of the one tree are folders of the other. -/
def KeepsFolders (t t' : FileTree) : Prop :=
  ∀ place, t.isFolder place = true → t'.isFolder place = true

/-- A file takes no folder away. -/
theorem keepsFolders_put (t : FileTree) (place : List String) (bytes : ByteArray) :
    KeepsFolders t (t.put place bytes) := by
  intro here folder
  exact (isFolder_put t place here bytes).mpr (.inl folder)

theorem keepsFolders_addFolder (t : FileTree) (place : List String) :
    KeepsFolders t { t with folders := place :: t.folders } := by
  intro here folder
  rw [isFolder_iff] at folder ⊢
  rcases folder with no | ⟨folder, mem, way⟩ | file
  · exact .inl no
  · exact .inr (.inl ⟨folder, List.mem_cons_of_mem _ mem, way⟩)
  · exact .inr (.inr file)

theorem isFolder_addFolder (t : FileTree) (place : List String) :
    isFolder { t with folders := place :: t.folders } place = true := by
  rw [isFolder_iff]
  exact .inr (.inl ⟨place, List.mem_cons_self, List.prefix_rfl⟩)

/-! ### Following paths again -/

/-- The place of a file that is there or can be made. -/
def Place.target? : Place → Option (List String)
  | .file place _ => some place
  | .folder => none
  | .free place => some place

def lookAt (t : FileTree) (place : List String) : Place :=
  if t.isFolder place then .folder
  else
    match t.file? place with
    | some contents => .file place contents
    | none => .free place

/-- As long as no folder is taken away, a path leads to the same place: to a folder, or else to
whatever is now at the place of the file. -/
theorem follow_keepsFolders {t t' : FileTree} (keeps : KeepsFolders t t')
    {here segments : List String} {found : Place} (leads : t.follow here segments = .ok found) :
    (found = .folder ∧ t'.follow here segments = .ok .folder) ∨
      ∃ place, found.target? = some place ∧ ¬t.isFolder place = true ∧
        t'.follow here segments = .ok (t'.lookAt place) := by
  fun_induction follow t here segments with
  | case1 => exact .inl ⟨(Except.ok.inj leads).symm, rfl⟩
  | case2 here segment rest stays ih =>
    rw [follow, if_pos stays]
    exact ih leads
  | case3 here rest notStays ih =>
    rw [follow, if_neg notStays, if_pos rfl]
    exact ih leads
  | case4 | case7 | case9 => cases leads
  | case5 here segment rest notStays notUp short place isFolder ih =>
    rw [follow, if_neg notStays, if_neg notUp, if_neg short, if_pos (keeps _ isFolder)]
    exact ih leads
  | case6 here segment notStays notUp short place notFolder
  | case8 here segment notStays notUp short place notFolder =>
    obtain rfl := Except.ok.inj leads
    refine .inr ⟨place, rfl, notFolder, ?_⟩
    rw [follow, if_neg notStays, if_neg notUp, if_neg short, lookAt]
    -- The path ends here, so what is at the place decides.
    by_cases folder : t'.isFolder place = true
    · rw [if_pos folder, if_pos folder, follow]
    · rw [if_neg folder, if_neg folder]
      cases t'.file? place <;> rfl

/-- A way to a folder stays open as long as no folder is taken away. -/
theorem follow_folder {t t' : FileTree} (keeps : KeepsFolders t t') {here segments : List String}
    (leads : t.follow here segments = .ok .folder) : t'.follow here segments = .ok .folder := by
  rcases follow_keepsFolders keeps leads with ⟨-, still⟩ | ⟨place, target, -⟩
  · exact still
  · cases target

/-- A folder that is made where nothing was is found there. -/
theorem follow_addFolder {t : FileTree} {here segments place : List String}
    (leads : t.follow here segments = .ok (.free place)) :
    follow { t with folders := place :: t.folders } here segments = .ok .folder := by
  rcases follow_keepsFolders (keepsFolders_addFolder t place) leads with
    ⟨folder, -⟩ | ⟨_, target, -, now⟩
  · cases folder
  · obtain rfl := Option.some.inj target
    rw [now, lookAt, if_pos (isFolder_addFolder t place)]

/-- A file that is put where a path leads is found there. -/
theorem follow_put {t : FileTree} {here segments place : List String} {found : Place}
    (leads : t.follow here segments = .ok found) (target : found.target? = some place)
    (bytes : ByteArray) : (t.put place bytes).follow here segments = .ok (.file place bytes) := by
  rcases follow_keepsFolders (keepsFolders_put t place bytes) leads with
    ⟨rfl, -⟩ | ⟨_, same, notFolder, now⟩
  · cases target
  · obtain rfl := Option.some.inj (target.symm.trans same)
    have still : ¬(t.put place bytes).isFolder place = true := by
      rw [isFolder_put]
      simpa using notFolder
    rw [now, lookAt, if_neg still]
    simp [file?, put]

/-! ### Saving -/

/-- A path leads somewhere if it is well formed and each segment leads on. -/
theorem resolve_eq_ok_iff {t : FileTree} {p : Path} {found : Place} :
    t.resolve p = .ok found ↔ p.fault? = none ∧ t.follow (startOf p) p.segments = .ok found := by
  unfold resolve
  cases p.fault? <;> simp

theorem resolveTarget_eq_ok_iff {t : FileTree} {p : Path} {found : Place} {place : List String}
    (target : found.target? = some place) :
    t.resolveTarget p = .ok found ↔
      (p.fault? = none → p.endsInSlash = false) ∧ t.resolve p = .ok found := by
  unfold resolveTarget
  split
  next slash =>
    rw [Bool.and_eq_true, Option.isNone_iff_eq_none] at slash
    constructor
    · intro leads
      generalize t.follow (startOf p) p.beforeLast = before at leads
      cases before with
      | error e => cases leads
      | ok _ =>
        cases leads
        cases target
    · rintro ⟨noSlash, -⟩
      simp [noSlash slash.1] at slash
  next noSlash =>
    have allowed : p.fault? = none → p.endsInSlash = false := by simpa using noSlash
    exact ⟨fun leads => ⟨allowed, leads⟩, And.right⟩

/-- A text is written where the path leads, unless a slash ends the path. -/
theorem write_eq_ok_iff {t t' : FileTree} {path text : String} :
    t.write path text = .ok t' ↔
      ∃ found place, found.target? = some place ∧
        (((Path.ofString path).fault? = none → (Path.ofString path).endsInSlash = false) ∧
          t.resolve (.ofString path) = .ok found) ∧
        t.put place text.toUTF8 = t' := by
  have written : t.write path text = .ok t' ↔ ∃ found place, found.target? = some place ∧
      t.resolveTarget (.ofString path) = .ok found ∧ t.put place text.toUTF8 = t' := by
    unfold write
    cases t.resolveTarget (.ofString path) with
    | error e => simp
    | ok found => cases found <;> simp [Place.target?]
  rw [written]
  refine exists₂_congr fun found place => and_congr_right fun target => ?_
  rw [resolveTarget_eq_ok_iff target]

/-- A folder that has been made is there. -/
theorem resolve_of_makeFolder {t t' : FileTree} {p : Path} (made : t.makeFolder p = .ok t') :
    t'.resolve p = .ok .folder := by
  unfold makeFolder at made
  split at made
  · cases made
  next there =>
    obtain rfl := Except.ok.inj made
    exact there
  next place free =>
    obtain rfl := Except.ok.inj made
    obtain ⟨sound, leads⟩ := resolve_eq_ok_iff.mp free
    exact resolve_eq_ok_iff.mpr ⟨sound, follow_addFolder leads⟩
  · cases made

/-- Folders that were made are there, so making them again changes nothing. -/
theorem makeFolders_again {t t' t'' : FileTree} {upward : List String}
    (made : t.makeFolders upward = .ok t') (keeps : KeepsFolders t' t'') :
    t''.makeFolders upward = .ok t'' := by
  induction upward generalizing t with
  | nil => rfl
  | cons segment above ih =>
    unfold makeFolders at made ⊢
    split
    next stays =>
      rw [if_pos stays] at made
      exact ih made
    next notStays =>
      rw [if_neg notStays] at made
      have there : t'.resolve ⟨(segment :: above).reverse⟩ = .ok .folder := by
        dsimp only at made
        split at made
        · split at made
          · cases made
          · exact resolve_of_makeFolder made
        · exact resolve_of_makeFolder made
      obtain ⟨sound, leads⟩ := resolve_eq_ok_iff.mp there
      have still := resolve_eq_ok_iff.mpr ⟨sound, follow_folder keeps leads⟩
      simp only [makeFolder, still]

/-- Saving succeeds if the folders can be made and then the file can be written. -/
theorem save_eq_none_iff {t t' : FileTree} {path text : String} :
    t.save path text = (t', none) ↔
      ∃ made, t.makeFolders (Path.ofString path).folderUpward = .ok made ∧
        made.write path text = .ok t' := by
  unfold save
  split
  next fails => simp [fails]
  next made makes =>
    split
    next fails => simp [makes, fails]
    next written => simp [makes, written]

/-- What was saved is there, and it can be replaced. -/
theorem contents_of_save {t t' : FileTree} {path text : String}
    (saved : t.save path text = (t', none)) :
    t'.contents path = .ok text.toUTF8 ∧ t'.Writable path := by
  obtain ⟨made, makes, written⟩ := save_eq_none_iff.mp saved
  obtain ⟨found, place, target, ⟨noSlash, leads⟩, rfl⟩ := write_eq_ok_iff.mp written
  obtain ⟨sound, leads⟩ := resolve_eq_ok_iff.mp leads
  have there := resolve_eq_ok_iff.mpr ⟨sound, follow_put leads target text.toUTF8⟩
  constructor
  · rw [contents, there]
  · intro other
    have folders := makeFolders_again makes (keepsFolders_put made place text.toUTF8)
    have again := write_eq_ok_iff.mpr
      ⟨_, place, rfl, ⟨noSlash, there⟩, (rfl : _ = FileTree.put _ place other.toUTF8)⟩
    rw [save_eq_none_iff.mpr ⟨_, folders, again⟩]

end SmallLisp.FileTree
