import SmallLisp.Source.Literal
import SmallLisp.Source.Scanner
import SmallLisp.SpecialForm

/-!
Reading one form from a source text.

The reader takes tokens until the first form is complete and looks no further, so what follows the
form does not matter. The lists and quotations that are still unfinished wait on a stack, the
innermost first: a token either opens one, completes some, or cannot stand where it does.
-/

namespace SmallLisp

/-- A list or quotation that is still being read. -/
inductive Pending where
  /-- A list opened at `opening`, with the elements read so far, the last first. -/
  | list (opening : Position) (items : List Value)
  /-- A quotation that waits for its form. -/
  | quotation (form : SpecialForm) (mark : List Char) (start : Position)

namespace Reading

inductive Step where
  | more (stack : List Pending)
  | done (form : Value)
  | failed (error : SourceError)

/-- Hands a completed form to the innermost unfinished list, through the quotations that wait for
it. -/
def complete : List Pending → Value → Step
  | [], form => .done form
  | .list opening items :: stack, form => .more (.list opening (form :: items) :: stack)
  | .quotation keyword _ _ :: stack, form =>
    complete stack (.list [.symbol keyword.name, form])

/-- The end of the text is an error, and the innermost unfinished form tells which. -/
def atEnd (finish : Position) : List Pending → SourceError
  | [] => .endOfInput finish
  | .list opening _ :: _ => .unbalanced opening
  | .quotation _ mark start :: _ => .endAfterMark mark start

def step (stack : List Pending) (token : Token) : Step :=
  match token.kind with
  | .opening => .more (.list token.start [] :: stack)
  | .closing =>
    match stack with
    | .list _ items :: stack => complete stack (.list items.reverse)
    | _ => .failed (.unexpectedClosing token.start)
  | .quote => .more (.quotation .quote token.lexeme token.start :: stack)
  | .quasiquote => .more (.quotation .quasiquote token.lexeme token.start :: stack)
  | .unquote => .more (.quotation .unquote token.lexeme token.start :: stack)
  | .splice => .more (.quotation .unquoteSplicing token.lexeme token.start :: stack)
  | .string => complete stack (Literal.string token.lexeme)
  | .atom =>
    match Literal.atom? token.lexeme with
    | some value => complete stack value
    | none => .failed (.unknownAtom token.lexeme token.start)
  | .finish => .failed (atEnd token.start stack)

def run : Nat → List Pending → Scanner → Except SourceError Value × Scanner
  | 0, stack, s => (.error (atEnd s.position stack), s)
  | count + 1, stack, s =>
    match s.next with
    | (.error e, s) => (.error e, s)
    | (.ok token, s) =>
      match step stack token with
      | .more stack => run count stack s
      | .done form => (.ok form, s)
      | .failed e => (.error e, s)

end Reading

/-- Reads one form off a scanner. Each token but the last takes a character, so there are enough. -/
def Scanner.readForm (s : Scanner) : Except SourceError Value × Scanner :=
  Reading.run (s.rest.length + 1) [] s

/-- The first form of a source text. -/
def read (source : List Char) : Except SourceError Value :=
  (Scanner.ofSource source).readForm.1

end SmallLisp
