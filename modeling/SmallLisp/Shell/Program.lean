import SmallLisp.Shell.Dialogue
import SmallLisp.Shell.Options
import SmallLisp.Shell.Script

/-!
The whole program as a function from its surroundings to what it leaves behind.
-/

namespace SmallLisp

/-- What the program finds when it starts. -/
structure Surroundings where
  input : ByteArray
  files : FileTree
  /-- The history file that is asked for. -/
  historyFile : Option String
  home : Option String

structure Ending where
  status : Nat
  output : String
  errors : String
  files : FileTree

namespace Program

def version : String := "warp-repl 0.0.12\n"

def dialogue (quiet : Bool) (s : Surroundings) : Ending :=
  let place := History.file? s.historyFile s.home
  let t := Dialogue.run quiet (.load s.files place) s.input
  match t.history.save s.files place with
  | (files, none) => ⟨0, t.output, t.errors, files⟩
  | (files, some e) => ⟨0, t.output, t.errors ++ Dialogue.unsavedHistory e.message, files⟩

def conclude (reply : Reply) (files : FileTree) : Ending :=
  ⟨if reply.succeeded then 0 else 1, reply.allOutput, reply.errors, files⟩

/-- Does what the options ask for: a line comes before a file, and a file before a dialogue. -/
def run (o : Options) (s : Surroundings) : Ending :=
  match o.source, o.file with
  | some source, _ => conclude (respondOnce source) s.files
  | none, some path => conclude (Script.respond path (s.files.text path)) s.files
  | none, none => dialogue o.quiet s

end Program

end SmallLisp
