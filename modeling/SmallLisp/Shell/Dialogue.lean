import SmallLisp.Shell.History
import SmallLisp.Shell.Reply

/-!
The dialogue: prompt, input, reply, until the input ends or asks to.

Blank inputs are passed over. Some inputs are commands to the shell; all others are lines for the
one session that the whole dialogue runs on. Every input that is not blank goes into the history.
-/

namespace SmallLisp

inductive Command where
  | help
  | quit
  | names
  | macros
  | line (source : String)
deriving DecidableEq, Repr

/-- The command that a trimmed input stands for. -/
def Command.ofInput : String → Command
  | ":help" => .help
  | ":h" => .help
  | ":quit" => .quit
  | ":q" => .quit
  | ":env" => .names
  | ":macros" => .macros
  | source => .line source

namespace Dialogue

def banner : String :=
  "W.A.R.P Lang, version 0.0.12\nStarting...\n\n"

def prompt : String := "::> "

def help : String :=
  "利用可能なコマンド:\n" ++
  "  :help, :h          ヘルプ（本メッセージ）\n" ++
  "  :env               ルート環境の束縛名一覧\n" ++
  "  :macros            定義済みマクロ名一覧\n" ++
  "  :quit, :q          終了\n" ++
  "\n" ++
  "例:\n" ++
  "  ::> (bind f (fn (y) (+ y 1)))\n" ++
  "  ::> (f 5)                      ; 6\n" ++
  "  ::> `(1 ,(+ 1 1) 3)            ; (1 2 3)\n"

def unreadableInput (e : FileError) : String :=
  "入力エラー: " ++ e.message ++ "\n"

def unsavedHistory (message : String) : String :=
  "ヒストリーの保存に失敗しました: " ++ message ++ "\n"

def nameList (names : List String) : String :=
  Reply.asLine (if names.isEmpty then "(none)" else String.intercalate " " names)

/-- The session and the history that a dialogue carries along. -/
structure State where
  session : Session
  history : History

def State.start (history : History) : State :=
  ⟨.start, history⟩

structure Turn where
  output : String
  errors : String
  /-- Whether the dialogue goes on. -/
  goesOn : Bool
  state : State

def perform (session : Session) (history : History) : Command → Turn
  | .help => ⟨help, "", true, ⟨session, history⟩⟩
  | .quit => ⟨"", "", false, ⟨session, history⟩⟩
  | .names => ⟨nameList session.names, "", true, ⟨session, history⟩⟩
  | .macros => ⟨nameList session.workspace.macros.names, "", true, ⟨session, history⟩⟩
  | .line source =>
    let (reply, session) := session.respond source
    ⟨reply.allOutput, reply.errors, true, ⟨session, history⟩⟩

def turn (state : State) (line : String) : Turn :=
  let input := Text.trim line
  if input.isEmpty then ⟨"", "", true, state⟩
  else perform state.session (state.history.record input) (.ofInput input)

/-- All that a dialogue said, and the history it leaves. -/
structure Transcript where
  output : String
  errors : String
  history : History
deriving DecidableEq, Repr

/-- Puts what was said earlier before a transcript. -/
def Transcript.after (output errors : String) (t : Transcript) : Transcript :=
  { t with output := output ++ t.output, errors := errors ++ t.errors }

/-- The lines of an input. If some of them are not valid UTF-8, each line is decoded by itself. -/
def inputLines (input : ByteArray) : List (Except FileError String) :=
  match FileTree.decode input with
  | .ok text => (Text.lines text).map .ok
  | .error _ => (Text.linesAt 10 input.toList).map fun line => FileTree.decode line.toByteArray

/-- Goes through the lines of an input, up to one that cannot be read or that ends the dialogue. -/
def converse (state : State) : List (Except FileError String) → Transcript
  | [] => ⟨prompt ++ "\n", "", state.history⟩
  | line :: more =>
    match line with
    | .error e => ⟨prompt, unreadableInput e, state.history⟩
    | .ok line =>
      let t := turn state line
      if t.goesOn then
        (converse t.state more).after (prompt ++ t.output) t.errors
      else ⟨prompt ++ t.output, t.errors, t.state.history⟩

def run (quiet : Bool) (history : History) (input : ByteArray) : Transcript :=
  (converse (.start history) (inputLines input)).after (if quiet then "" else banner) ""

end Dialogue

end SmallLisp
