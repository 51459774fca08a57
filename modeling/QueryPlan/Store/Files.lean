import QueryPlan.OrderedMap
import QueryPlan.Text.Quoted

/-!
# A store of files

A `Files` is a snapshot of a directory tree: which directories there are, and the bytes of each
file. Paths are written with slashes. They start from one of the directories, or, when they begin
with a slash, from the directory of that name. Reading and writing fail with the reasons an
operating system gives.
-/

namespace QueryPlan

/-- Why a path cannot be opened. -/
inductive FileReason
  | missing
  | alreadyThere
  | notDirectory
  | isDirectory
  | nameTooLong
  deriving Repr, DecidableEq

/-- A path that cannot be opened, and why. -/
structure FileFault where
  path : String
  reason : FileReason
  deriving Repr, DecidableEq

/-- The number and the words of a reason. -/
def FileReason.text : FileReason → String
  | .missing => "[Errno 2] No such file or directory"
  | .alreadyThere => "[Errno 17] File exists"
  | .notDirectory => "[Errno 20] Not a directory"
  | .isDirectory => "[Errno 21] Is a directory"
  | .nameTooLong => "[Errno 36] File name too long"

/-- The words for a file fault. -/
def FileFault.message (f : FileFault) : String :=
  f.reason.text ++ ": " ++ Text.quoted f.path

/-- A snapshot of a directory tree, and the directory that relative paths start from. -/
structure Files where
  start : List String := []
  directories : List (List String) := [[]]
  contents : OrderedMap (List String) ByteArray := {}
  deriving Inhabited

namespace Files

/-- What a path leads to: a file, a directory, or a place where a file may be made. -/
inductive Place
  | file (name : List String)
  | directory (name : List String)
  | free (name : List String)
  deriving Repr, DecidableEq

/-- The longest name of a file or directory, in bytes. -/
def maxNameSize : Nat := 255

/-- The name of the directory that absolute paths start from. -/
def topName : String := "/"

/-- The directory around a directory; the one that absolute paths start from is around itself. -/
def above : List String → Option (List String)
  | [] => none
  | [name] => if name = topName then some [name] else some []
  | names => some names.dropLast

/-- Follows the parts of a path from a directory. -/
def follow (fs : Files) (here : List String) : List String → Except FileReason Place
  | [] => .ok (.directory here)
  | part :: parts =>
    if part = "" || part = "." then fs.follow here parts
    else if part = ".." then
      match above here with
      | none => .error .missing
      | some around => fs.follow around parts
    else if maxNameSize < part.utf8ByteSize then .error .nameTooLong
    else if fs.directories.contains (here ++ [part]) then fs.follow (here ++ [part]) parts
    else if fs.contents.contains (here ++ [part]) then
      if parts.isEmpty then .ok (.file (here ++ [part])) else .error .notDirectory
    else if parts.isEmpty then .ok (.free (here ++ [part])) else .error .missing

/-- Splits a list of characters at the slashes. -/
def splitSlashes : List Char → List (List Char)
  | [] => [[]]
  | c :: cs =>
    if c = '/' then [] :: splitSlashes cs
    else
      match splitSlashes cs with
      | [] => [[c]]
      | part :: parts => (c :: part) :: parts

/-- The parts of a path. -/
def partsOf (path : String) : List String := (splitSlashes path.toList).map String.ofList

/-- The directory that a path starts from. -/
def origin (fs : Files) (path : String) : List String :=
  if path.toList.head? = some '/' then [topName] else fs.start

/-- What a path leads to. -/
def locate (fs : Files) (path : String) : Except FileReason Place :=
  if path = "" then .error .missing else fs.follow (fs.origin path) (partsOf path)

/-- The bytes of the file at a path. -/
def read (fs : Files) (path : String) : Except FileFault ByteArray :=
  match fs.locate path with
  | .error reason => .error ⟨path, reason⟩
  | .ok (.directory _) => .error ⟨path, .isDirectory⟩
  | .ok (.free _) => .error ⟨path, .missing⟩
  | .ok (.file name) => (fs.contents.get? name).elim (.error ⟨path, .missing⟩) .ok

/-- The tree after a file is written at a path. -/
def write (fs : Files) (path : String) (bytes : ByteArray) : Except FileFault Files :=
  match fs.locate path with
  | .error reason => .error ⟨path, reason⟩
  | .ok (.directory _) => .error ⟨path, .isDirectory⟩
  | .ok (.free name) | .ok (.file name) =>
    .ok { fs with contents := fs.contents.insert name bytes }

/-- The tree with one more directory. -/
def addDirectory (fs : Files) (name : List String) : Files :=
  if fs.directories.contains name then fs else { fs with directories := fs.directories ++ [name] }

/-- The tree with all directories on the way along a path. -/
def addDirectories (fs : Files) (here : List String) : List String → Files
  | [] => fs.addDirectory here
  | part :: parts =>
    let fs := fs.addDirectory here
    if part = "" || part = "." then fs.addDirectories here parts
    else if part = ".." then fs.addDirectories ((above here).getD here) parts
    else fs.addDirectories (here ++ [part]) parts

/-- The tree with all directories that a path leads through. -/
def openPath (fs : Files) (path : String) : Files :=
  fs.addDirectories (fs.origin path) (partsOf path).dropLast

/-- The tree with a file at a path, and all directories that lead to it. -/
def put (fs : Files) (path : String) (bytes : ByteArray) : Files :=
  let fs := fs.openPath path
  (fs.write path bytes).toOption.getD fs

/-- A name within a directory: a name that begins with a slash stands for itself. -/
def joinPath (directory name : String) : String :=
  if name.toList.head? = some '/' then name
  else if directory = "" || directory.toList.getLast? = some '/' then directory ++ name
  else directory ++ "/" ++ name

end Files

end QueryPlan
