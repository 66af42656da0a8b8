import CilWeaver.Error
import CilWeaver.File.Path

/-!
Files and directories. A path is followed name by name, from the root or from the current directory.
-/

namespace CilWeaver

inductive FileNode where
  | file (data : Bytes)
  | directory
deriving DecidableEq

/-- What there is, each item under the names that lead from the root to it, and the directory where
    relative paths start. -/
structure FileTree where
  nodes : List (List String × FileNode) := []
  current : List String := []

/-- Where a path leads, and what is there. Only the last name of a path may lead nowhere. -/
structure FilePlace where
  names : List String
  node? : Option FileNode

namespace FileTree

def node? (t : FileTree) (names : List String) : Option FileNode :=
  if names.isEmpty || names == t.current then some .directory else t.nodes.lookup names

/-- The longest name of a file, counted in bytes of UTF-8. -/
def maxNameSize : Nat := 255

/-- The longest path, counted in bytes of UTF-8. -/
def maxPathSize : Nat := 4095

/-- Follows one name. An empty name stays in the directory, as a single dot does. -/
def step (t : FileTree) (place : FilePlace) (name : String) : Except FileFault FilePlace :=
  match place.node? with
  | none => .error .notFound
  | some (.file _) => .error .notADirectory
  | some .directory =>
    if name.isEmpty || name == "." then .ok place
    else if name == ".." then .ok ⟨place.names.dropLast, some .directory⟩
    else if maxNameSize < name.utf8ByteSize then .error .invalidName
    else .ok ⟨place.names ++ [name], t.node? (place.names ++ [name])⟩

/-- The names of a path. -/
def splitNames (path : String) : List String := path.splitOn "/"

def locate (t : FileTree) (path : String) : Except FileFault FilePlace :=
  if path.contains '\x00' then .error .invalidInput
  else if path.isEmpty then .error .notFound
  else if maxPathSize < path.utf8ByteSize then .error .invalidName
  else
    let start := if path.startsWith "/" then [] else t.current
    (splitNames path).foldlM t.step ⟨start, some .directory⟩

/-- What a path leads to, if it leads to anything. -/
def find? (t : FileTree) (path : String) : Option FileNode :=
  (t.locate path).toOption.bind FilePlace.node?

def contains (t : FileTree) (path : String) : Bool := (t.find? path).isSome

def isDirectory (t : FileTree) (path : String) : Bool := t.find? path == some .directory

def isFile (t : FileTree) (path : String) : Bool := t.contains path && !t.isDirectory path

/-- The data of a file. -/
def read (t : FileTree) (path : String) : Except FileFault Bytes := do
  match (← t.locate path).node? with
  | some (.file data) => return data
  | some .directory => .error .other
  | none => .error .notFound

/-- Puts an item at a place, also when there is one already. -/
def put (t : FileTree) (names : List String) (node : FileNode) : FileTree :=
  if (t.nodes.lookup names).isSome then
    { t with nodes := t.nodes.map fun entry => if entry.1 == names then (names, node) else entry }
  else { t with nodes := t.nodes ++ [(names, node)] }

def erase (t : FileTree) (names : List String) : FileTree :=
  { t with nodes := t.nodes.filter fun entry => entry.1 != names }

/-- Puts an item and the directories around it. -/
def putWithParents (t : FileTree) (names : List String) (node : FileNode) : FileTree :=
  let parents := (List.range (names.length - 1)).map fun i => names.take (i + 1)
  (parents.foldl (fun t p => if (t.node? p).isSome then t else t.put p .directory) t).put names node

/-- Adds files, and directories, which have no data, under a directory. -/
def addAll (t : FileTree) (directory : List String) (items : List (String × Option Bytes)) :
    FileTree :=
  items.foldl (fun t (path, data?) =>
    let names := (splitNames path).filter fun name => !name.isEmpty && name != "."
    t.putWithParents (directory ++ names) (data?.elim .directory .file)) t

/-- The files under a directory with their paths from there. -/
def filesUnder (t : FileTree) (directory : List String) : List (String × Bytes) :=
  t.nodes.filterMap fun (names, node) =>
    match node with
    | .file data =>
      if names.take directory.length == directory then
        some ("/".intercalate (names.drop directory.length), data)
      else none
    | .directory => none

end FileTree

end CilWeaver
