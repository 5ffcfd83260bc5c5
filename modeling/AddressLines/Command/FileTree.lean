/-!
# File trees

The files a run can reach, each by the names that lead to it from the root. Paths are followed name by name:
from the root if they start with a slash, and from the working directory if not.
-/

namespace AddressLines.Command

/-- Why no file can be written at a path. -/
inductive PathFault where
  | missing
  | notDirectory
  | isDirectory
  | nameTooLong
deriving DecidableEq, Repr

def PathFault.message : PathFault → String
  | missing => "No such file or directory (os error 2)"
  | notDirectory => "Not a directory (os error 20)"
  | isDirectory => "Is a directory (os error 21)"
  | nameTooLong => "File name too long (os error 36)"

inductive Node where
  | directory
  | file (content : ByteArray)
  /-- The null device: it is empty, and what is written to it is gone. -/
  | sink

structure FileTree where
  nodes : List (List String × Node)
  working : List String

/-- The pieces of a path between its slashes. -/
def pieces (path : String) : List String :=
  path.splitToList (· == '/')

/-- A name has at most 255 bytes. -/
def isLongName (name : String) : Bool :=
  255 < name.utf8ByteSize

/-- A path has less than 4096 bytes. -/
def isLongPath (path : String) : Bool :=
  4096 ≤ path.utf8ByteSize

namespace FileTree

/-- What lies at the end of some names. All that leads to a node is a directory. -/
def node? (t : FileTree) (names : List String) : Option Node :=
  match t.nodes.lookup names with
  | some node => some node
  | none =>
    if names.isEmpty || t.nodes.any fun (path, _) => names.isPrefixOf path then some .directory
    else none

/-- Goes along the pieces of a path to the last one, which names a file. No file is named by a path that
ends with a slash or a dot, and above the root is the root. -/
def follow (t : FileTree) (place : List String) : List String → Except PathFault (List String)
  | [] => .error .isDirectory
  | [name] =>
    if name = "" ∨ name = "." ∨ name = ".." then .error .isDirectory
    else if isLongName name then .error .nameTooLong
    else
      match t.node? (place ++ [name]) with
      | some .directory => .error .isDirectory
      | _ => .ok (place ++ [name])
  | name :: more =>
    if more.all (· == "") then .error .isDirectory
    else if name = "" ∨ name = "." then t.follow place more
    else if name = ".." then t.follow place.dropLast more
    else if isLongName name then .error .nameTooLong
    else
      match t.node? (place ++ [name]) with
      | some .directory => t.follow (place ++ [name]) more
      | some _ => .error .notDirectory
      | none => .error .missing

/-- The names a path leads to. -/
def resolve (t : FileTree) (path : String) : Except PathFault (List String) :=
  if isLongPath path then .error .nameTooLong
  else t.follow (if (pieces path).head? = some "" then [] else t.working) (pieces path)

def read? (t : FileTree) (path : String) : Option ByteArray :=
  match t.resolve path with
  | .error _ => none
  | .ok names =>
    match t.node? names with
    | some (.file content) => some content
    | some .sink => some .empty
    | _ => none

/-- Puts a file in place of any file with these names; the null device stays what it is. -/
def put (t : FileTree) (names : List String) (content : ByteArray) : FileTree :=
  match t.node? names with
  | some .sink => t
  | _ => { t with nodes := (names, .file content) :: t.nodes.filter (·.1 != names) }

def write (t : FileTree) (path content : String) : Except PathFault FileTree :=
  (t.resolve path).map fun names => t.put names content.toUTF8

/-! ## A tree to run in -/

/-- The directories that the root of a system has. -/
def rootNames : List String :=
  ["bin", "boot", "dev", "etc", "home", "lib", "media", "mnt", "opt", "proc", "root", "run", "sbin",
    "srv", "sys", "tmp", "usr", "var"]

/-- A system with an empty working directory. -/
def system : FileTree :=
  let working := ["tmp", "work"]
  ⟨(working, .directory) :: (["dev", "null"], .sink) :: rootNames.map fun name => ([name], .directory),
    working⟩

/-- Adds a file below the working directory, with the directories that lead to it. -/
def addFile (t : FileTree) (path : String) (content : ByteArray) : FileTree :=
  t.put (t.working ++ (pieces path).filter fun name => name ≠ "" ∧ name ≠ ".") content

end FileTree

end AddressLines.Command
