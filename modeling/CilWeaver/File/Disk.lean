import CilWeaver.File.Tree

/-!
Changing files. A disk may refuse a change for reasons of its own, such as a lack of space.
-/

namespace CilWeaver

/-- Why a change is refused. A refused write may have stored the first bytes of its data. -/
structure Refusal where
  fault : FileFault
  stored? : Option Nat := none
deriving DecidableEq

/-- The files, and for each of the next changes the reason why it is refused, if it is. -/
structure Disk where
  tree : FileTree
  refusals : List (Option Refusal) := []

/-- A step that changes files. What a refused write has stored is all that a failed step changes. -/
abbrev DiskAction := EStateM FileFault Disk

namespace DiskAction

/-- The refusal of the next change, if it is refused. -/
def begin : DiskAction (Option Refusal) := do
  let d ← get
  set { d with refusals := d.refusals.tail }
  return d.refusals.head?.join

/-- Fails if the next change is refused. -/
def permit : DiskAction Unit := do
  if let some refusal ← begin then throw refusal.fault

def locate (path : String) : DiskAction FilePlace := do
  match (← get).tree.locate path with
  | .ok place => return place
  | .error fault => throw fault

def changeTree (f : FileTree → FileTree) : DiskAction Unit :=
  modify fun d => { d with tree := f d.tree }

/-- Writes a file, which need not be there before. -/
def write (path : String) (data : Bytes) : DiskAction Unit := do
  let refusal? ← begin
  let place ← locate path
  if place.node? == some .directory then throw .isADirectory
  match refusal? with
  | none => changeTree (·.put place.names (.file data))
  | some refusal =>
    if let some size := refusal.stored? then
      changeTree (·.put place.names (.file (data.take size)))
    throw refusal.fault

def remove (path : String) : DiskAction Unit := do
  permit
  let place ← locate path
  match place.node? with
  | none => throw .notFound
  | some .directory => throw .isADirectory
  | some (.file _) => changeTree (·.erase place.names)

/-- Moves a file to another place, and replaces the file there. -/
def rename (source target : String) : DiskAction Unit := do
  permit
  let place ← locate source
  match place.node? with
  | none => throw .notFound
  | some .directory => throw .isADirectory
  | some (.file data) =>
    let goal ← locate target
    if goal.node? == some .directory then throw .isADirectory
    changeTree fun t => (t.erase place.names).put goal.names (.file data)

end DiskAction

end CilWeaver
