import SmallLisp.Proofs.Emission
import SmallLisp.Proofs.Lines
import SmallLisp.Proofs.SavedFile
import SmallLisp.Shell.Program

/-!
A dialogue as a fold over its inputs.

The lines of the input up to the one that ends the dialogue are trimmed and taken one after the
other. Each of them finds the session that `Dialogue.advance` has made of the first one, and has
`Dialogue.said` and `Dialogue.report?` to say on the two channels. The session of the fold keeps all
lines that it emitted, while the dialogue takes them out after each input; by `Session.line_logged`
this makes no difference.

The main statement is `dialogue_folds_session`.
-/

namespace SmallLisp

/-! ### The session between two inputs -/

namespace Session

def emitted (s : Session) : List String :=
  s.workspace.store.emitted.toList

/-- The lines that are emitted while a line is carried out. -/
def emittedBy (s : Session) (source : String) : List String :=
  (s.line source).2.emitted.drop s.emitted.length

def drained (s : Session) : Session :=
  s.takeEmitted.2

/-- Putting the lines back that were taken out gives the session again. -/
theorem logged_drained (s : Session) : s.drained.logged s.workspace.store.emitted = s := by
  simp [drained, takeEmitted, logged, Workspace.logged, Store.logged]

theorem drained_logged (earlier : Array String) (s : Session) :
    (s.logged earlier).drained = s.drained :=
  rfl

theorem emitted_logged (earlier : Array String) (s : Session) :
    (s.logged earlier).emitted = earlier.toList ++ s.emitted := by
  simp [emitted, logged, Workspace.logged, Store.logged]

/-- A line does on a session what it does without the lines emitted before, which stay in front. -/
theorem line_eq_logged (s : Session) (source : String) :
    s.line source =
      ((s.drained.line source).1, (s.drained.line source).2.logged s.workspace.store.emitted) := by
  have whole := line_logged s.workspace.store.emitted s.drained source
  rwa [logged_drained] at whole

/-- The lines emitted earlier stay where they are. -/
theorem emitted_line (s : Session) (source : String) :
    (s.line source).2.emitted = s.emitted ++ s.emittedBy source := by
  rw [emittedBy, line_eq_logged, emitted_logged]
  simp [emitted]

/-- A line sees nothing of the lines emitted before it. -/
theorem line_drained (s : Session) (source : String) :
    (s.drained.line source).1 = (s.line source).1 ∧
      (s.drained.line source).2.emitted = s.emittedBy source ∧
      (s.drained.line source).2.drained = (s.line source).2.drained := by
  refine ⟨by rw [line_eq_logged s], ?_, by rw [line_eq_logged s, drained_logged]⟩
  rw [emittedBy, line_eq_logged s, emitted_logged]
  simp [emitted]

end Session

namespace LineResult

/-- What a result adds to the output: a value on a line of its own, which is blank if the line is
just a marker and has the value `nil`. -/
def shown (source : String) : LineResult → String
  | .value .nil =>
    match read source.toList with
    | .ok (.marker _) => "\n"
    | _ => Value.nil.written ++ "\n"
  | .value v => v.written ++ "\n"
  | .nothing | .failed _ | .exhausted => ""

/-- What is reported of a failure. The report of a line that nests too deep is one of
`Session.respond` alone: on a machine stack the dialogue would end there, without a report. -/
def report? : LineResult → Option String
  | .failed cause => some ("Runtime Error: " ++ cause.diagnostic.text ++ "\n")
  | .exhausted => some "Runtime Error: the program nests too deep\n"
  | .value _ | .nothing => none

end LineResult

/-! ### Recording and saving inputs -/

namespace History

/-- A history trims what it records, so an input may be trimmed before. -/
theorem record_trim (history : History) (line : String) :
    history.record (Text.trim line) = history.record line := by
  rw [record, record, Text.trim_trim]

theorem record_of_trim_eq_empty (history : History) {line : String} (blank : Text.trim line = "") :
    history.record line = history := by
  simp [record, blank]

/-- Saving reports nothing if the file can be written. -/
theorem save_eq_none {files : FileTree} {place : Option String}
    (writable : ∀ path ∈ place, files.Writable path) (history : History) :
    ∃ saved, history.save files place = (saved, none) := by
  cases place with
  | none => exact ⟨files, rfl⟩
  | some path => exact ⟨_, Prod.ext rfl (writable path rfl history.text)⟩

end History

/-! ### The fold -/

namespace Dialogue

def asksToQuit (line : String) : Bool :=
  Text.trim line ∈ [":quit", ":q"]

/-- The lines up to the first that asks for the end, and this one. -/
def upToQuit (lines : List String) : List String :=
  lines.take (lines.findIdx asksToQuit + 1)

/-- What an input has for the session to carry out. Blank inputs and commands have nothing. -/
def source? (input : String) : Option String :=
  if input ∈ ["", ":help", ":h", ":quit", ":q", ":env", ":macros"] then none else some input

def advance (s : Session) (input : String) : Session :=
  match source? input with
  | none => s
  | some source => (s.line source).2

def answer (s : Session) (input : String) : String :=
  if input ∈ [":help", ":h"] then help
  else if input = ":env" then nameList s.names
  else if input = ":macros" then nameList s.workspace.macros.names
  else ""

def said (s : Session) (input : String) : String :=
  match source? input with
  | none => answer s input
  | some source => Text.unlines (s.emittedBy source) ++ (s.line source).1.shown source

/-- What an input brings to the error channel, if it fails. -/
def report? (s : Session) (input : String) : Option String :=
  match source? input with
  | none => none
  | some source => (s.line source).1.report?

/-- The inputs of a dialogue that begins with the session, each with the session it finds. -/
def rounds (s : Session) (lines : List String) : List (Session × String) :=
  let inputs := (upToQuit lines).map Text.trim
  (inputs.scanl advance s).zip inputs

/-- Behind a line that asks for the end nothing is taken. -/
theorem upToQuit_cons (line : String) (more : List String) :
    upToQuit (line :: more) = line :: if asksToQuit line then [] else upToQuit more := by
  unfold upToQuit
  by_cases quits : asksToQuit line = true <;> simp [List.findIdx_cons, quits]

/-- The first input finds the session as it is, and the others what it leaves. -/
theorem rounds_cons (s : Session) (line : String) (more : List String) :
    rounds s (line :: more) =
      (s, Text.trim line) ::
        if asksToQuit line then [] else rounds (advance s (Text.trim line)) more := by
  unfold rounds
  rw [upToQuit_cons]
  by_cases quits : asksToQuit line = true <;> simp [quits]

/-! ### One input -/

/-- The text of a value is blank exactly where a marker stands for all there is to see. -/
theorem shown_value (source : String) (v : Value) :
    (LineResult.value v).shown source = Reply.asLine (Session.valueText source v) := by
  cases v with
  | nil =>
    unfold LineResult.shown Session.valueText Session.isMarkerCommand
    cases read source.toList with
    | error cause => rfl
    | ok v => cases v <;> rfl
  | _ => rfl

/-- The reply to a line, said about the session of the fold. -/
theorem respond_drained (s : Session) (source : String) :
    (s.drained.respond source).1.allOutput =
        Text.unlines (s.emittedBy source) ++ (s.line source).1.shown source ∧
      (s.drained.respond source).1.errors = (s.line source).1.report?.getD "" ∧
      (s.drained.respond source).2 = (s.line source).2.drained := by
  obtain ⟨result, emitted, after⟩ := s.line_drained source
  rw [← result, ← emitted, ← after]
  unfold Session.respond Session.drained
  generalize s.takeEmitted.2.line source = ran
  obtain ⟨result, after⟩ := ran
  refine ⟨?_, ?_, rfl⟩
  · cases result with
    | value v =>
      rw [shown_value]
      rfl
    | nothing | failed _ | exhausted => rfl
  · cases result <;> rfl

theorem mem_of_source?_eq_none {input : String} (command : source? input = none) :
    input ∈ ["", ":help", ":h", ":quit", ":q", ":env", ":macros"] := by
  unfold source? at command
  split at command
  · assumption
  · cases command

/-- What is no command is a line for the session, and does not ask for the end. -/
theorem ofInput_of_source?_eq_some {input source : String} (own : source? input = some source) :
    source = input ∧ Command.ofInput input = .line input ∧ input ∉ [":quit", ":q"] := by
  unfold source? at own
  split at own
  · cases own
  next other =>
    simp only [List.mem_cons, List.not_mem_nil, or_false, not_or] at other
    refine ⟨(Option.some.inj own).symm, ?_, by simp [other]⟩
    unfold Command.ofInput
    split <;> simp_all

/-- One turn of the dialogue is one step of the fold. -/
theorem turn_eq {state : State} {s : Session} (same : state.session = s.drained) (line : String) :
    turn state line =
      ⟨said s (Text.trim line), (report? s (Text.trim line)).getD "", !asksToQuit line,
        ⟨(advance s (Text.trim line)).drained, state.history.record line⟩⟩ := by
  obtain ⟨session, history⟩ := state
  obtain rfl : session = s.drained := same
  unfold asksToQuit
  by_cases blank : Text.trim line = ""
  · simp [turn, blank, said, report?, advance, source?, answer, History.record_of_trim_eq_empty]
  · unfold turn
    rw [if_neg (by simpa using blank), History.record_trim]
    generalize Text.trim line = input at blank
    cases own : source? input with
    | some source =>
      obtain ⟨rfl, command, goesOn⟩ := ofInput_of_source?_eq_some own
      obtain ⟨output, errors, after⟩ := respond_drained s source
      simp [command, perform, said, advance, report?, own, output, errors, after, goesOn]
    | none =>
      have command := mem_of_source?_eq_none own
      simp only [List.mem_cons, List.not_mem_nil, or_false, blank, false_or] at command
      rcases command with rfl | rfl | rfl | rfl | rfl | rfl <;> rfl

/-! ### All inputs -/

/-- What a dialogue says on the output, with a prompt before each input. -/
def output (rounds : List (Session × String)) : String :=
  String.join (rounds.map fun (session, input) => prompt ++ said session input)

/-- What a dialogue says on the error channel: one report for each input that fails. -/
def errors (rounds : List (Session × String)) : String :=
  String.join (rounds.filterMap fun (session, input) => report? session input)

theorem output_cons (s : Session) (input : String) (more : List (Session × String)) :
    output ((s, input) :: more) = prompt ++ said s input ++ output more := by
  simp [output]

theorem errors_cons (s : Session) (input : String) (more : List (Session × String)) :
    errors ((s, input) :: more) = (report? s input).getD "" ++ errors more := by
  cases reported : report? s input <;> simp [errors, reported]

/-- The dialogue keeps the session of the fold, without the lines it emitted. -/
theorem converse_ok {state : State} {s : Session} (same : state.session = s.drained)
    (lines : List String) :
    (converse state (lines.map .ok)).output =
        output (rounds s lines) ++ (if lines.any asksToQuit then "" else prompt ++ "\n") ∧
      (converse state (lines.map .ok)).errors = errors (rounds s lines) := by
  induction lines generalizing state s with
  | nil => exact ⟨rfl, rfl⟩
  | cons line more ih =>
    rw [List.map_cons, converse, rounds_cons, List.any_cons, output_cons, errors_cons]
    simp only [turn_eq same line]
    by_cases quits : asksToQuit line = true
    · simp [quits, output, errors]
    · obtain ⟨said, reported⟩ :=
        @ih ⟨(advance s (Text.trim line)).drained, state.history.record line⟩ _ rfl
      simp only [quits, Transcript.after, said, reported]
      simp [String.append_assoc]

/-! ### With the history -/

theorem start_session (history : History) :
    (State.start history).session = Session.start.drained :=
  rfl

def transcript (quiet : Bool) (s : Surroundings) : Transcript :=
  run quiet (.load s.files (History.file? s.historyFile s.home)) s.input

/-- Saving the history adds nothing to the output. -/
theorem transcript_output (quiet : Bool) (s : Surroundings) :
    (Program.dialogue quiet s).output = (transcript quiet s).output := by
  unfold Program.dialogue
  dsimp only
  split <;> rfl

/-- If the history can be saved, then all that is said is in the transcript. -/
theorem dialogue_of_writable (quiet : Bool) {s : Surroundings}
    (writable : ∀ path ∈ History.file? s.historyFile s.home, s.files.Writable path) :
    ∃ saved, (transcript quiet s).history.save s.files (History.file? s.historyFile s.home) =
        (saved, none) ∧
      Program.dialogue quiet s =
        ⟨0, (transcript quiet s).output, (transcript quiet s).errors, saved⟩ := by
  obtain ⟨saved, saves⟩ := History.save_eq_none writable (transcript quiet s).history
  refine ⟨saved, saves, ?_⟩
  rw [transcript] at saves
  simp only [Program.dialogue, saves]
  rfl

end Dialogue

open Dialogue

/-- A dialogue over an input that is a text takes the lines of the text up to the first that asks
for the end, each on the session that all earlier ones have left. What it says is the greeting, then
for each input a prompt and what the input brings to the output, and a last prompt if nothing asked
for the end. If the history can be saved, what it reports is one report for each input that fails. -/
theorem dialogue_folds_session (quiet : Bool) (s : Surroundings) (text : String)
    (decoded : s.input = text.toUTF8) :
    -- The lines of the text are what stands between its newlines.
    ((∀ line ∈ Text.lines text, '\n' ∉ line.toList) ∧
      (Text.unlines (Text.lines text) = text ∨
        Text.unlines (Text.lines text) = text ++ "\n" ∧ (Text.lines text).getLast? ≠ some "")) ∧
    -- The lines that an input emits come behind all those emitted before.
    (∀ (session : Session) (source : String),
      (session.line source).2.emitted = session.emitted ++ session.emittedBy source) ∧
    (Program.dialogue quiet s).output =
      (if quiet then "" else banner) ++ output (rounds .start (Text.lines text)) ++
        (if (Text.lines text).any asksToQuit then "" else prompt ++ "\n") ∧
    ((∀ path ∈ History.file? s.historyFile s.home, s.files.Writable path) →
      (Program.dialogue quiet s).errors = errors (rounds .start (Text.lines text))) := by
  obtain ⟨said, reported⟩ := converse_ok
    (start_session (.load s.files (History.file? s.historyFile s.home))) (Text.lines text)
  rw [← inputLines_toUTF8, ← decoded] at said reported
  refine ⟨⟨Text.not_mem_lines text, Text.unlines_lines text⟩, Session.emitted_line, ?_, ?_⟩
  · rw [transcript_output, transcript, run, Transcript.after, said, String.append_assoc]
  · intro writable
    obtain ⟨saved, -, ending⟩ := dialogue_of_writable quiet writable
    rw [ending, transcript, run, Transcript.after, reported, String.empty_append]

/-- After a line that fails and a blank one, the marker `#:g` emits the names that are bound and has
a blank line for its value, a line is carried out as ever, and the one behind `:q` is not. -/
theorem dialogue_folds_session_past_failure :
    let s : Surroundings := ⟨"x\n \n#:g\n7\n:q\nx".toUTF8, ⟨[], []⟩, none, none⟩
    (Program.dialogue true s).output =
        "::> ::> ::> " ++ String.intercalate " " Session.start.names ++ "\n\n::> 7\n::> " ∧
      (Program.dialogue true s).errors =
        "Runtime Error: [EVAL010] Cannot find var in ENV: x\n" := by
  intro s
  obtain ⟨-, -, said, reported⟩ := dialogue_folds_session true s "x\n \n#:g\n7\n:q\nx" rfl
  constructor
  · rw [said]
    decide +kernel
  · rw [reported (by simp [s, History.file?])]
    decide +kernel

end SmallLisp
