import CilWeaver.File.Basic
import CilWeaver.Module.FromImage
import CilWeaver.Reference.Catalog

/-!
Search paths: images that were added, and directories where the image of an assembly is looked for
when a symbol of the assembly is needed. What was found for an assembly is remembered.
-/

namespace CilWeaver

structure SearchPath where
  tree : FileTree := {}
  directories : List String := []
  /-- The catalogs by key of the assembly; a missing catalog stands for an assembly that was not
      found. -/
  found : List (String × Option Catalog) := []

namespace SearchPath

/-- Remembers the catalog of an assembly, in place of an older one. -/
def remember (s : SearchPath) (key : String) (catalog? : Option Catalog) : SearchPath :=
  { s with found := (key, catalog?) :: s.found.filter (·.1 != key) }

/-- Adds an image under the name of the assembly that it has, or else under its file name without
    extension. -/
def addImage (s : SearchPath) (name : String) (image : Bytes) : Result SearchPath := do
  let m ← Module.readDefinitions name image
  let catalog ← Catalog.ofModule m
  let assembly := match m.assembly? with
    | some identity => identity.name
    | none => Path.stem name
  return s.remember (AssemblyName.key assembly) (some catalog)

def addDirectory (s : SearchPath) (directory : String) : SearchPath :=
  { s with directories := s.directories ++ [directory] }

/-- Adds a directory, or the image in a file. -/
def addPath (s : SearchPath) (path : String) : Result SearchPath := do
  if s.tree.isDirectory path then return s.addDirectory path
  else s.addImage ((Path.fileName? path).getD "") (← File.openIn s.tree path).data

def extensions : List String := ["dll", "exe"]

/-- The names of the files that may hold an assembly: of the core library, any of its names. -/
def fileNames (assembly : String) : List String :=
  let names :=
    if AssemblyName.isCore assembly then assembly :: AssemblyName.coreAliases else [assembly]
  names.flatMap fun name => extensions.map fun extension => name ++ "." ++ extension

/-- The catalog of the image in a file, if there is such a file and it can be read. -/
def load? (tree : FileTree) (directory name : String) : Option Catalog :=
  let path := Path.join directory name
  if tree.isFile path then
    (do Catalog.ofModule (← Module.readDefinitions name (← File.openIn tree path).data)
      : Result Catalog).toOption
  else none

/-- The first image of the assembly that can be read. -/
def probe (s : SearchPath) (assembly : String) : Option Catalog :=
  s.directories.findSome? fun directory =>
    (fileNames assembly).findSome? fun name => load? s.tree directory name

/-- The catalog of an assembly, looked for once for all names with the same key. -/
def catalog (s : SearchPath) (assembly : String) : Option Catalog × SearchPath :=
  let key := AssemblyName.key assembly
  match s.found.lookup key with
  | some catalog? => (catalog?, s)
  | none =>
    let catalog? := s.probe assembly
    (catalog?, s.remember key catalog?)

end SearchPath

end CilWeaver
