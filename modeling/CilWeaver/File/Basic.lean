import CilWeaver.File.Tree

/-!
Files that were read, and a module file together with its symbol file.
-/

namespace CilWeaver

/-- The data of a file, of which there is some. -/
structure File where
  data : Bytes
  not_empty : data.isEmpty = false

namespace File

def ofBytes (data : Bytes) : Result File :=
  if h : data.isEmpty = false then .ok ⟨data, h⟩ else .error .empty

/-- Reads a file from the tree. -/
def openIn (tree : FileTree) (path : String) : Result File :=
  match tree.read path with
  | .ok data => ofBytes data
  | .error fault => .error (.file fault)

/-- A range of the data. -/
def slice (f : File) (offset size : Nat) : Result Bytes :=
  if offset + size ≤ f.data.length then .ok ((f.data.drop offset).take size)
  else .error .outOfBounds

end File

structure ModuleFile where
  path : String
  symbolsPath : String
  code : File
  symbols? : Option File

namespace ModuleFile

/-- Opens a module file, and its symbol file if it is there. -/
def openIn (tree : FileTree) (path symbolsPath : String) : Result ModuleFile := do
  let code ← File.openIn tree path
  let symbols? ←
    if tree.contains symbolsPath then some <$> File.openIn tree symbolsPath else pure none
  return ⟨path, symbolsPath, code, symbols?⟩

/-- The name that messages carry. -/
def name (f : ModuleFile) : String := (Path.fileName? f.path).getD ""

end ModuleFile

end CilWeaver
