import SmallLisp.Text.Blank

/-!
Paths into a tree of files, and what can go wrong with them.

A path is taken apart at its slashes into segments, and all of them are kept: an empty segment or a
dot stays where it is, two dots go up, and any other segment is a name. Since nothing is dropped, the
segments also tell how long a path is and whether a slash ends it.
-/

namespace SmallLisp

inductive FileError where
  | notFound
  | notFolder
  | isFolder
  | alreadyExists
  | nameTooLong
  /-- A path holds the character with code 0. -/
  | nullInPath
  /-- The contents are not valid UTF-8. -/
  | notText
deriving DecidableEq, Repr

def FileError.message : FileError → String
  | .notFound => "No such file or directory (os error 2)"
  | .notFolder => "Not a directory (os error 20)"
  | .isFolder => "Is a directory (os error 21)"
  | .alreadyExists => "File exists (os error 17)"
  | .nameTooLong => "File name too long (os error 36)"
  | .nullInPath => "file name contained an unexpected NUL byte"
  | .notText => "stream did not contain valid UTF-8"

/-- What stands between the slashes of a path. -/
structure Path where
  segments : List String
deriving DecidableEq, Repr

namespace Path

/-- The most bytes that a name may have. -/
def nameLimit : Nat := 255

/-- The most bytes that a path may have. -/
def limit : Nat := 4095

def ofString (s : String) : Path :=
  ⟨(Text.linesAt '/' (s.toList ++ ['/'])).map String.ofList⟩

def text (p : Path) : String :=
  String.intercalate "/" p.segments

/-- Whether a segment stays in the folder it is reached in. -/
def stays (segment : String) : Bool :=
  segment.isEmpty || segment == "."

/-- The segments that lead somewhere. -/
def parts (p : Path) : List String :=
  p.segments.filter (!stays ·)

def isAbsolute (p : Path) : Bool :=
  1 < p.segments.length && p.segments.head? == some ""

def endsInSlash (p : Path) : Bool :=
  1 < p.segments.length && p.segments.getLast? == some ""

/-- What is wrong with a path wherever it leads. -/
def fault? (p : Path) : Option FileError :=
  if p.text.toList.contains '\x00' then some .nullInPath
  else if p.text.isEmpty then some .notFound
  else if limit < p.text.utf8ByteSize then some .nameTooLong
  else none

/-- The segments of the folder that a path leads into, the last one first. -/
def folderUpward (p : Path) : List String :=
  (p.segments.reverse.dropWhile stays).drop 1

/-- The path of the folder that a path leads into. -/
def folder (p : Path) : Path :=
  ⟨(p.folderUpward.dropWhile stays).reverse⟩

/-- What stands before the last segment that is not empty, up to and with the slash. -/
def beforeLast (p : Path) : List String :=
  ((p.segments.reverse.dropWhile String.isEmpty).drop 1).reverse ++ [""]

def entry (folder name : String) : String :=
  if folder.toList.getLast? = some '/' then folder ++ name else folder ++ "/" ++ name

end Path

end SmallLisp
