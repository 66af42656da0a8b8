import CilWeaver.CommandLine.Run
import CilWeaver.CommandLine.Usage
import Std.Time

/-!
The program: gathers the files that a run may read, and changes those that it wants changed.
-/

namespace CilWeaver.Main

/-- The names that lead from the root to where a path leads. -/
def namesFrom (start : List String) (path : String) : List String :=
  (FileTree.splitNames path).foldl
    (fun names name =>
      if name.isEmpty || name == "." then names
      else if name == ".." then names.dropLast
      else names ++ [name])
    (if path.startsWith "/" then [] else start)

/-- Adds the file at a path, or the files in the directory there. -/
def addPath (tree : FileTree) (path : String) : IO FileTree := do
  let place := (← IO.currentDir) / path
  let names := namesFrom tree.current path
  if ← place.isDir then
    let entries ← place.readDir
    entries.foldlM (fun tree entry => do
      if ← entry.path.isDir then return tree
      let data ← IO.FS.readBinFile entry.path
      return tree.putWithParents (names ++ [entry.fileName]) (.file data.toList))
      (tree.putWithParents names .directory)
  else if ← place.pathExists then
    return tree.putWithParents names (.file (← IO.FS.readBinFile place).toList)
  else return tree

/-- All files that a run with these arguments may read. -/
def gather (a : Arguments) : IO FileTree := do
  let start : FileTree := { current := namesFrom [] (← IO.currentDir).toString }
  let around := (Path.parent? a.path).getD ""
  let paths := (if around.isEmpty then "." else around) :: a.path :: a.symbolsPath :: a.references
  paths.foldlM addPath start

def bytesOf (data : Bytes) : ByteArray := ⟨data.toArray⟩

/-- Writes all files under other names first, and then puts them in place. -/
def writeBack (changes : List FileChange) : IO Unit := do
  let mut staged : List String := []
  for c in changes do
    try
      IO.FS.writeBinFile c.stagingPath (bytesOf c.data)
    catch e =>
      for path in staged do
        try IO.FS.removeFile path catch _ => pure ()
      throw e
    staged := staged ++ [c.stagingPath]
  for c in changes do
    IO.FS.rename c.stagingPath c.path

def present : IO TimeOfDay := do
  let time ← Std.Time.PlainTime.now
  return (TimeOfDay.ofSeconds time.toSeconds.val.toNat).toOption.getD .midnight

def run (a : Arguments) : IO UInt32 := do
  match a.weave (← present) (← gather a) with
  | .error fault =>
    (← IO.getStderr).putStr s!"Error: {fault.message}\n"
    return 1
  | .ok outcome =>
    writeBack outcome.changes
    (← IO.getStdout).putStr outcome.text
    return 0

end CilWeaver.Main

def main (arguments : List String) : IO UInt32 := do
  match CilWeaver.Arguments.parse arguments with
  | .error stop =>
    let output ← if stop.exitCode = 0 then IO.getStdout else IO.getStderr
    output.putStr stop.text
    return stop.exitCode.toUInt32
  | .ok a => CilWeaver.Main.run a
