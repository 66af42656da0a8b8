import CilWeaver.File.Disk
import CilWeaver.File.Path

/-!
Putting woven files in the place of the compiled ones. All files are written under other names
first, so that a lack of space shows before anything is replaced.
-/

namespace CilWeaver

/-- What a run of the program fails for. -/
inductive RunCause where
  | library (e : Error)
  | disk (fault : FileFault)
deriving DecidableEq

/-- A failure, and what was done at that time. -/
structure RunFault where
  context : String
  cause : RunCause
deriving DecidableEq

def RunCause.message : RunCause → String
  | library e => e.message
  | disk fault => fault.name

def RunFault.message (f : RunFault) : String := s!"{f.context}: {f.cause.message}"

abbrev RunAction := EStateM RunFault Disk

/-- A file and what it will hold. -/
structure FileChange where
  path : String
  data : Bytes

namespace FileChange

def stagingPath (c : FileChange) : String :=
  Path.withFileName c.path ((Path.fileName? c.path).getD "" ++ ".dotweave-tmp")

/-- A change of the disk, with the text for its failure. -/
def doing {α : Type} (context : String) (action : DiskAction α) : RunAction α :=
  action.adaptExcept fun fault => ⟨context, .disk fault⟩

/-- Removes a file, and does not care if that fails. -/
def tryRemove (path : String) : RunAction Unit := fun d =>
  match DiskAction.remove path d with
  | .ok _ d | .error _ d => .ok () d

/-- Writes the staged files. If one cannot be written, those before it are removed again. -/
def stage (staged : List FileChange) : List FileChange → RunAction Unit
  | [] => return ()
  | c :: changes => do
    try doing s!"failed to write {c.path}" (DiskAction.write c.stagingPath c.data)
    catch fault =>
      staged.forM (tryRemove ·.stagingPath)
      throw fault
    stage (staged ++ [c]) changes

def replace (c : FileChange) : RunAction Unit :=
  doing s!"failed to replace {c.path}" (DiskAction.rename c.stagingPath c.path)

/-- Changes all files. -/
def writeBack (changes : List FileChange) : RunAction Unit := do
  stage [] changes
  changes.forM replace

end FileChange

end CilWeaver
