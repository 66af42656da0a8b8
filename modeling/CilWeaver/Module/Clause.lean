import CilWeaver.Image.ModuleImage
import CilWeaver.Instruction.Decode
import CilWeaver.Method.RawBody
import CilWeaver.Module.Body

/-!
Exception regions and their stored clauses: a region names instructions, a clause bytes.
-/

namespace CilWeaver

namespace Region

/-- The instruction where a block starts. -/
def startOf (decoded : DecodedBody) (method : String) (offset : UInt32) : Result Nat :=
  match decoded.indexOf? offset.toNat with
  | some index => .ok index
  | none => .error (.malformed (.regionStart method offset.toNat))

/-- The instruction behind a block, or the end of the body. -/
def endOf (decoded : DecodedBody) (method : String) (offset length : UInt32) : Result Nat :=
  match decoded.boundaryOf? (offset.toNat + length.toNat) with
  | some index => .ok index
  | none => .error (.malformed (.regionEnd method offset.toNat length.toNat))

/-- The tables whose rows can be the type of a catch clause. -/
def catchTables : List Table := [.typeDef, .typeRef, .typeSpec]

def kindOf (contains : Token → Bool) (decoded : DecodedBody) (method : String) (c : Clause) :
    Result RegionKind :=
  match c.flags with
  | ⟨false, false, false⟩ =>
    let type : Token := ⟨c.argument⟩
    if catchTables.any type.isIn && contains type then .ok (.catches type)
    else .error (.malformed (.catchDangling method type))
  | ⟨true, false, false⟩ => do return .filter (← startOf decoded method c.argument)
  | ⟨false, true, false⟩ => .ok .cleanup
  | ⟨false, false, true⟩ => .ok .fault
  | flags => .error (.malformed (.regionKind method flags.number))

/-- The region of a clause, if its flags name one kind and its bounds are found in the body. -/
def ofClause (contains : Token → Bool) (decoded : DecodedBody) (method : String) (c : Clause) :
    Result Region := do
  let kind ← kindOf contains decoded method c
  return {
    kind
    tryStart := ← startOf decoded method c.tryOffset
    tryEnd := ← endOf decoded method c.tryOffset c.tryLength
    handlerStart := ← startOf decoded method c.handlerOffset
    handlerEnd := ← endOf decoded method c.handlerOffset c.handlerLength }

/-- The clause of a region of a body whose instructions have the given offsets. -/
def toClause (offsets : Array Nat) (r : Region) : Clause :=
  let offset (index : Nat) : Nat := offsets[index]?.getD 0
  let (flags, argument) : ClauseFlags × UInt32 :=
    match r.kind with
    | .catches type => ({}, type.value)
    | .filter start => ({ filter := true }, .ofNat (offset start))
    | .cleanup => ({ cleanup := true }, 0)
    | .fault => ({ fault := true }, 0)
  { flags
    tryOffset := .ofNat (offset r.tryStart)
    tryLength := .ofNat (offset r.tryEnd - offset r.tryStart)
    handlerOffset := .ofNat (offset r.handlerStart)
    handlerLength := .ofNat (offset r.handlerEnd - offset r.handlerStart)
    argument }

end Region

end CilWeaver
