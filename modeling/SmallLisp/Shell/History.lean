import SmallLisp.Shell.FileTree

/-!
The history of inputs, kept in a file from run to run.

An input is trimmed before it is recorded. Blank inputs and immediate repetitions are left out, and
only the newest entries are kept.
-/

namespace SmallLisp

/-- The inputs recorded so far, the oldest first. -/
structure History where
  entries : List String
deriving DecidableEq, Repr

namespace History

def limit : Nat := 500

def empty : History := ⟨[]⟩

def lastOf {α : Type} (n : Nat) (xs : List α) : List α :=
  xs.drop (xs.length - n)

def record (h : History) (input : String) : History :=
  let entry := Text.trim input
  if entry.isEmpty || h.entries.getLast? == some entry then h
  else ⟨lastOf limit (h.entries ++ [entry])⟩

/-- The history that a file's text stands for. -/
def ofText (text : String) : History :=
  (Text.lines text).foldl record empty

/-- The text of the history's file: each entry on a line of its own. -/
def text (h : History) : String :=
  String.join (h.entries.map (· ++ "\n"))

/-- The history saved in a file; without a readable file it starts empty. -/
def load (t : FileTree) : Option String → History
  | none => empty
  | some path =>
    match t.text path with
    | .ok saved => ofText saved
    | .error _ => empty

/-- Saves the history in its file, if it has one. -/
def save (h : History) (t : FileTree) : Option String → FileTree × Option FileError
  | none => (t, none)
  | some path => t.save path h.text

/-- The file of the history: the one that is asked for, none if the empty path is asked for, and
otherwise a file in the home folder, if there is one. -/
def file? (asked home : Option String) : Option String :=
  match asked with
  | some path => if path.isEmpty then none else some path
  | none =>
    match home with
    | some folder => if folder.isEmpty then none else some (Path.entry folder ".warp_history")
    | none => none

end History

end SmallLisp
