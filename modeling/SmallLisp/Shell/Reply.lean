import SmallLisp.Session

/-!
The reply to a line: what is emitted while it runs, and its result on one of two channels.

A value goes to the output and a failure to the error channel. A line that is just a marker is a
command whose output is all there is to see, so when its value is `nil` a blank line stands for it.
-/

namespace SmallLisp

/-- What a line has to say. -/
structure Reply where
  emitted : List String
  output : String
  errors : String
  succeeded : Bool
deriving DecidableEq, Repr

namespace Reply

def asLine (s : String) : String := s ++ "\n"

def report (message : String) : String :=
  asLine ("Runtime Error: " ++ message)

/-- Everything on the output channel, in the order in which it appears. -/
def allOutput (r : Reply) : String :=
  String.join (r.emitted.map asLine) ++ r.output

def failure (message : String) : Reply :=
  ⟨[], "", report message, false⟩

end Reply

namespace Session

def isMarkerCommand (source : String) : Bool :=
  match read source.toList with
  | .ok (.marker _) => true
  | _ => false

/-- The text that stands for a value. -/
def valueText (source : String) : Value → String
  | .nil => if isMarkerCommand source then "" else Value.nil.written
  | v => v.written

/-- Carries out a line and puts the result into words. The language has no message for a program
that nests deeper than `Session.depth`: on a machine stack its recursion overflows, which ends the
process and the dialogue with it. Here such a line is reported in words of this library's own, and
the session goes on. -/
def respond (s : Session) (source : String) : Reply × Session :=
  let (result, s) := s.line source
  let (emitted, s) := s.takeEmitted
  let reply : Reply := match result with
    | .value v => ⟨emitted, Reply.asLine (valueText source v), "", true⟩
    | .nothing => ⟨emitted, "", "", true⟩
    | .failed cause => ⟨emitted, "", Reply.report cause.diagnostic.text, false⟩
    | .exhausted => ⟨emitted, "", Reply.report "the program nests too deep", false⟩
  (reply, s)

end Session

/-- The reply to a single line on a fresh session. -/
def respondOnce (source : String) : Reply :=
  (Session.start.respond source).1

end SmallLisp
