import SmallLisp.Shell.FileTree
import SmallLisp.Shell.Reply

/-!
Running a file, of which only the first line counts.
-/

namespace SmallLisp.Script

/-- The first line of a text, trimmed, if it is not blank. -/
def firstLine? (text : String) : Option String :=
  let line := Text.trim ((Text.lines text).headD "")
  if line.isEmpty then none else some line

def unreadable (path : String) (e : FileError) : String :=
  "cannot open " ++ path ++ ": " ++ e.message

/-- The reply to a file, given its text or the reason why it has none. A file whose first line is
blank says nothing. -/
def respond (path : String) : Except FileError String → Reply
  | .error e => .failure (unreadable path e)
  | .ok text =>
    match firstLine? text with
    | none => ⟨[], "", "", true⟩
    | some line => respondOnce line

end SmallLisp.Script
