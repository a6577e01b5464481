import SmallLisp.Shell.Program

/-!
The command line: reading input line by line, printing replies as they come, and keeping the history
in a real file. What is said and recorded is decided by the shell's pure functions.
-/

namespace SmallLisp.Main

/-- The wording of an error of the file system. -/
def errorText (e : IO.Error) : String :=
  match e with
  | .noFileOrDirectory .. => FileError.notFound.message
  | .alreadyExists .. => FileError.alreadyExists.message
  | .invalidArgument _ 36 _ => FileError.nameTooLong.message
  | .inappropriateType _ 20 _ => FileError.notFolder.message
  | .inappropriateType .. => FileError.isFolder.message
  | other => toString other

def readText (path : String) : IO (Except String String) := do
  match ← (IO.FS.readBinFile path).toBaseIO with
  | .error e => return .error (errorText e)
  | .ok bytes =>
    match FileTree.decode bytes with
    | .error e => return .error e.message
    | .ok text => return .ok text

/-- Prints a reply and gives the exit status. -/
def conclude (reply : Reply) : IO UInt32 := do
  IO.print reply.allOutput
  IO.eprint reply.errors
  return if reply.succeeded then 0 else 1

def runFile (path : String) : IO UInt32 := do
  match ← readText path with
  | .ok text => conclude (Script.respond path (.ok text))
  | .error message => conclude (.failure ("cannot open " ++ path ++ ": " ++ message))

/-- Takes inputs until they end or ask to. -/
partial def converse (input output : IO.FS.Stream) (state : Dialogue.State) :
    IO Dialogue.State := do
  output.putStr Dialogue.prompt
  output.flush
  match ← input.getLine.toBaseIO with
  | .error _ =>
    IO.eprint (Dialogue.unreadableInput .notText)
    return state
  | .ok line =>
    if line.isEmpty then
      output.putStr "\n"
      return state
    let t := Dialogue.turn state line
    output.putStr t.output
    IO.eprint t.errors
    if t.goesOn then converse input output t.state else return t.state

def saveHistory (history : History) (path : String) : IO Unit := do
  let folder := (Path.ofString path).folder.text
  unless folder.isEmpty do
    IO.FS.createDirAll folder
  IO.FS.writeFile path history.text

def runDialogue (quiet : Bool) : IO UInt32 := do
  let place := History.file? (← IO.getEnv "WARP_HISTORY_FILE") (← IO.getEnv "HOME")
  let history ← match place with
    | none => pure History.empty
    | some path =>
      match ← readText path with
      | .ok text => pure (History.ofText text)
      | .error _ => pure History.empty
  unless quiet do IO.print Dialogue.banner
  let state ← converse (← IO.getStdin) (← IO.getStdout) (.start history)
  if let some path := place then
    match ← (saveHistory state.history path).toBaseIO with
    | .ok () => pure ()
    | .error e => IO.eprint (Dialogue.unsavedHistory (errorText e))
  return 0

end SmallLisp.Main

open SmallLisp in
def main (args : List String) : IO UInt32 := do
  match Options.request args with
  | .version =>
    IO.print Program.version
    return 0
  | .help => return 0
  | .refused => return 2
  | .run o =>
    match o.source, o.file with
    | some source, _ => Main.conclude (respondOnce source)
    | none, some path => Main.runFile path
    | none, none => Main.runDialogue o.quiet
