import SmallLisp.Shell.Path

/-!
The tree of files and folders that the program finds.

A place in the tree is the way to it from the folder in which the program runs: the names that are
passed, after as many `..` as it goes up. A way from the top has an empty name first instead. The
names of the folders above are not known, so that nothing above the folder in which the program runs
is the same as something below the top.

Every segment of a path but the last has to lead to a folder, and also the last one when a slash
follows it.
-/

namespace SmallLisp

/-- Files with their contents, and folders, each by its place. -/
structure FileTree where
  files : List (List String × ByteArray)
  folders : List (List String)

namespace FileTree

def startOf (p : Path) : List String :=
  if p.isAbsolute then [""] else []

/-- The place of the next folder up; above the top there is only the top. -/
def above (place : List String) : List String :=
  match place.getLast? with
  | none => [".."]
  | some ".." => place ++ [".."]
  | some "" => place
  | some _ => place.dropLast

def file? (t : FileTree) (place : List String) : Option ByteArray :=
  t.files.lookup place

/-- A place is a folder if no name leads to it, if it is listed as one, or if it lies on the way to
something. -/
def isFolder (t : FileTree) (place : List String) : Bool :=
  place.all (fun segment => segment == "" || segment == "..") ||
    t.folders.any place.isPrefixOf || t.files.any fun (p, _) => place.isPrefixOf p && place ≠ p

inductive Place where
  | file (place : List String) (contents : ByteArray)
  | folder
  /-- Nothing is there, but the folder it would be in is. -/
  | free (place : List String)

/-! ### Following paths -/

/-- Follows the segments of a path from the folder at `here`. -/
def follow (t : FileTree) (here : List String) : List String → Except FileError Place
  | [] => .ok .folder
  | segment :: rest =>
    if Path.stays segment then t.follow here rest
    else if segment = ".." then t.follow (above here) rest
    else if Path.nameLimit < segment.utf8ByteSize then .error .nameTooLong
    else
      let place := here ++ [segment]
      if t.isFolder place then t.follow place rest
      else
        match t.file? place, rest with
        | some contents, [] => .ok (.file place contents)
        | some _, _ :: _ => .error .notFolder
        | none, [] => .ok (.free place)
        | none, _ :: _ => .error .notFound

def resolve (t : FileTree) (p : Path) : Except FileError Place :=
  match p.fault? with
  | some e => .error e
  | none => t.follow (startOf p) p.segments

/-! ### Reading -/

def contents (t : FileTree) (path : String) : Except FileError ByteArray :=
  match t.resolve (.ofString path) with
  | .error e => .error e
  | .ok (.file _ bytes) => .ok bytes
  | .ok .folder => .error .isFolder
  | .ok (.free _) => .error .notFound

def decode (bytes : ByteArray) : Except FileError String :=
  match String.fromUTF8? bytes with
  | some s => .ok s
  | none => .error .notText

def text (t : FileTree) (path : String) : Except FileError String :=
  match t.contents path with
  | .error e => .error e
  | .ok bytes => decode bytes

/-! ### Writing -/

/-- Puts contents at a place, instead of what was there. -/
def put (t : FileTree) (place : List String) (bytes : ByteArray) : FileTree :=
  { t with files := (place, bytes) :: t.files.filter (·.1 ≠ place) }

/-- Where a path leads when a file is to be written there. A path that ends in a slash can only lead
to a folder. -/
def resolveTarget (t : FileTree) (p : Path) : Except FileError Place :=
  if p.fault?.isNone && p.endsInSlash then
    (t.follow (startOf p) p.beforeLast).map fun _ => .folder
  else t.resolve p

/-- Writes a text to a file, which is made if it is not there. -/
def write (t : FileTree) (path text : String) : Except FileError FileTree :=
  match t.resolveTarget (.ofString path) with
  | .error e => .error e
  | .ok (.file place _) | .ok (.free place) => .ok (t.put place text.toUTF8)
  | .ok .folder => .error .isFolder

/-- Makes one folder, unless it is there. The folder it is in has to be there. -/
def makeFolder (t : FileTree) (p : Path) : Except FileError FileTree :=
  match t.resolve p with
  | .error e => .error e
  | .ok .folder => .ok t
  | .ok (.free place) => .ok { t with folders := place :: t.folders }
  | .ok (.file ..) => .error .alreadyExists

/-- Makes the folder with the given segments, the last one first. Only when a folder on the way to it
is not found are the folders above it made, and then it is tried again. -/
def makeFolders (t : FileTree) : List String → Except FileError FileTree
  | [] => .ok t
  | segment :: above =>
    if Path.stays segment then t.makeFolders above
    else
      let p : Path := ⟨(segment :: above).reverse⟩
      match t.makeFolder p with
      | .error .notFound =>
        match t.makeFolders above with
        | .error e => .error e
        | .ok t => t.makeFolder p
      | made => made

/-- Writes a text to a file, after making the folder it is in. -/
def save (t : FileTree) (path text : String) : FileTree × Option FileError :=
  match t.makeFolders (Path.ofString path).folderUpward with
  | .error e => (t, some e)
  | .ok t =>
    match t.write path text with
    | .error e => (t, some e)
    | .ok t => (t, none)

end FileTree

end SmallLisp
