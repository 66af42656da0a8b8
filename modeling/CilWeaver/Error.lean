import CilWeaver.Error.EmissionFault
import CilWeaver.Error.MachineFault

/-!
The failures of this library, by cause. `Error.message` is their wording.
-/

namespace CilWeaver

/-- Why the file system refuses an operation. -/
inductive FileFault where
  | notFound
  | notADirectory
  | isADirectory
  /-- A name that is too long. -/
  | invalidName
  /-- A path that no file can have. -/
  | invalidInput
  | other
deriving DecidableEq, Repr

def FileFault.name : FileFault → String
  | notFound => "NotFound"
  | notADirectory => "NotADirectory"
  | isADirectory => "IsADirectory"
  | invalidName => "InvalidFilename"
  | invalidInput => "InvalidInput"
  | other => "Uncategorized"

inductive Error where
  | malformed (defect : Defect)
  | outOfBounds
  | empty
  | file (fault : FileFault)
  /-- A resolver has no answer for the reference with this text. -/
  | notFound (reference : String)
  /-- A reference of a module could not be resolved. -/
  | unresolved (symbol : String) (cause : Error)
  | emission (context : String) (fault : EmissionFault)
  | timeOfDay (seconds : Nat)
  | recursionLimit (limit : Nat)
  | machine (fault : MachineFault)
deriving DecidableEq

open Text (decimal)

def Error.message : Error → String
  | malformed defect => defect.message
  | outOfBounds => "Out of Bound read would have occurred"
  | empty => "Provided input was empty"
  | file fault => fault.name
  | notFound reference => s!"Reference not found - {reference}"
  | unresolved symbol cause => s!"Unresolved reference - {symbol}: {cause.message}"
  | emission context fault => s!"Emission failed - {context}: {fault.message}"
  | timeOfDay seconds => s!"Invalid time of day - {decimal seconds} seconds since midnight"
  | recursionLimit limit => s!"Reach the maximum recursion level allowed - {decimal limit}"
  | machine fault => s!"Emulation failed - {fault.message}"

/-- Whether the data that was read is at fault. -/
def Error.isMalformed : Error → Bool
  | malformed _ | outOfBounds => true
  | _ => false

abbrev Result (α : Type) := Except Error α

end CilWeaver
