import SmallLisp.Fault
import SmallLisp.Source.SourceError

/-!
Errors as they are shown: a code, a message and, for errors in a source text, a place.

The place stands behind the message. When the source line is known it follows on a line of its own,
with a caret below the column.
-/

namespace SmallLisp

/-- An error ready to be shown; every part of the place may be missing. -/
structure Diagnostic where
  code : String
  message : String
  offset : Option Nat
  line : Option Nat
  column : Option Nat
  snippet : Option String
deriving DecidableEq, Repr

namespace Diagnostic

def plain (code message : String) : Diagnostic :=
  ⟨code, message, none, none, none, none⟩

def located (code message : String) (p : Position) (snippet : Option String) : Diagnostic :=
  ⟨code, message, some p.offset, some p.line, some p.column, snippet⟩

/-- The place as it stands behind the message. Line and column are shown together or not at all. -/
def placeText (d : Diagnostic) : String :=
  let lineColumn :=
    match d.line, d.column with
    | some line, some column => " @line=" ++ Nat.repr line ++ ",col=" ++ Nat.repr column
    | _, _ => ""
  match d.offset with
  | some offset => lineColumn ++ " @pos=" ++ Nat.repr offset
  | none => lineColumn

/-- The source line and the caret below it, when the line's text and the column are known. -/
def excerpt (d : Diagnostic) : String :=
  match d.snippet, d.column with
  | some snippet, some column =>
    "\n" ++ snippet ++ "\n" ++ String.ofList (List.replicate (column - 1) ' ') ++ "^"
  | _, _ => ""

def text (d : Diagnostic) : String :=
  "[" ++ d.code ++ "] " ++ d.message ++ d.placeText ++ d.excerpt

end Diagnostic

def SourceError.diagnostic : SourceError → Diagnostic
  | .unterminatedString start line =>
    .located "LEX001" "unterminated string literal" start (some (String.ofList line))
  | .unbalanced opening => .located "READ001" "Unbalanced parens" opening none
  | .unexpectedClosing start => .located "READ002" "Unexpected )" start none
  | .unknownAtom lexeme start =>
    .located "READ003" ("unknown value type: " ++ String.ofList lexeme) start none
  | .endAfterMark mark start =>
    .located "READ004" ("unexpected end of input after " ++ String.ofList mark) start none
  | .endOfInput start => .located "READ004" "unexpected end of input" start none

def Fault.diagnostic (fault : Fault) : Diagnostic :=
  .plain fault.code fault.message

/-- What makes a line fail: its text cannot be read, or it cannot be carried out. -/
inductive Failure where
  | source (error : SourceError)
  | execution (fault : Fault)

inductive Stage where
  | scanning
  | reading
  | execution (kind : FaultKind)
deriving DecidableEq, Repr

namespace Failure

def stage : Failure → Stage
  | source (.unterminatedString ..) => .scanning
  | source _ => .reading
  | execution fault => .execution fault.kind

def diagnostic : Failure → Diagnostic
  | source error => error.diagnostic
  | execution fault => fault.diagnostic

end Failure

end SmallLisp
