/-!
Command-line options.

An option's value stands behind it, directly or after an equals sign, or in the next argument, which
then must not look like an option itself. Short options may be combined behind one dash, up to the
first that takes a value. Each option may be given once, there are no other arguments, and asking for
the version or for help ends the reading of options.
-/

namespace SmallLisp

structure Options where
  source : Option String
  file : Option String
  quiet : Bool
deriving DecidableEq, Repr

inductive Request where
  | run (options : Options)
  | version
  | help
  /-- The command line is not understood. -/
  | refused
deriving DecidableEq, Repr

/-- The options that take a value. -/
inductive ValueOption where
  | source
  | file
deriving DecidableEq, Repr

inductive OptionName where
  | valued (option : ValueOption)
  | quiet
  | version
  | help
deriving DecidableEq, Repr

namespace OptionName

def ofLong? : String → Option OptionName
  | "eval" => some (.valued .source)
  | "file" => some (.valued .file)
  | "quiet" => some .quiet
  | "version" => some .version
  | "help" => some .help
  | _ => none

def ofShort? : Char → Option OptionName
  | 'e' => some (.valued .source)
  | 'f' => some (.valued .file)
  | 'q' => some .quiet
  | 'V' => some .version
  | 'h' => some .help
  | _ => none

end OptionName

namespace Options

def none : Options := ⟨.none, .none, false⟩

/-- Gives a value to an option that has none yet. -/
def set? (o : Options) (option : ValueOption) (value : String) : Option Options :=
  match option with
  | .source => if o.source.isSome then .none else some { o with source := some value }
  | .file => if o.file.isSome then .none else some { o with file := some value }

def setQuiet? (o : Options) : Option Options :=
  if o.quiet then .none else some { o with quiet := true }

/-- What a group of short options leaves to be done. -/
inductive Group where
  | done (options : Options)
  /-- The last option of the group takes its value from the next argument. -/
  | waiting (option : ValueOption) (options : Options)
  | ended (request : Request)

def group (o : Options) : List Char → Group
  | [] => .done o
  | c :: cs =>
    match OptionName.ofShort? c with
    | .none => .ended .refused
    | some .version => .ended .version
    | some .help => .ended .help
    | some .quiet =>
      match o.setQuiet? with
      | some o => group o cs
      | .none => .ended .refused
    | some (.valued option) =>
      if cs.isEmpty then .waiting option o
      else
        let value := if cs.head? = some '=' then cs.drop 1 else cs
        match o.set? option (String.ofList value) with
        | some o => .done o
        | .none => .ended .refused

/-- Takes in a long option, given its name and the value behind an equals sign. -/
def long (o : Options) (name : String) (value : Option String) : Group :=
  match OptionName.ofLong? name, value with
  | some (.valued option), some v =>
    match o.set? option v with
    | some o => .done o
    | .none => .ended .refused
  | some (.valued option), .none => .waiting option o
  | some .quiet, .none =>
    match o.setQuiet? with
    | some o => .done o
    | .none => .ended .refused
  | some .version, .none => .ended .version
  | some .help, .none => .ended .help
  | _, _ => .ended .refused

/-- Takes in one argument that is no value. -/
def argument (o : Options) (arg : List Char) : Group :=
  match arg with
  | '-' :: '-' :: body =>
    let name := String.ofList (body.takeWhile (· ≠ '='))
    let value := (body.dropWhile (· ≠ '=')).tail?.map String.ofList
    o.long name value
  | '-' :: c :: cs => o.group (c :: cs)
  | _ => .ended .refused

/-- Whether an argument can be the value of the option before it. -/
def isValue (arg : String) : Bool :=
  match arg.toList with
  | '-' :: _ :: _ => false
  | _ => true

/-- A line to evaluate and a file exclude each other. -/
def finish (o : Options) : Request :=
  if o.source.isSome && o.file.isSome then .refused else .run o

mutual

/-- Reads arguments. Nothing may follow the argument `--`. -/
def readFrom (o : Options) : List String → Request
  | [] => o.finish
  | "--" :: args => if args.isEmpty then o.finish else .refused
  | arg :: args =>
    match o.argument arg.toList with
    | .done o => readFrom o args
    | .ended request => request
    | .waiting option o => readValue option o args

def readValue (option : ValueOption) (o : Options) : List String → Request
  | [] => .refused
  | arg :: args =>
    if isValue arg then
      match o.set? option arg with
      | some o => readFrom o args
      | .none => .refused
    else .refused

end

def request (args : List String) : Request :=
  Options.none.readFrom args

end Options

end SmallLisp
