import CilWeaver.Bytes.Reader
import CilWeaver.Instruction.Basic

/-!
Decoding code into instructions. A branch in the code names a distance in bytes; a decoded body
names the index of the instruction that starts there.
-/

namespace CilWeaver

/-- The table number in the tokens of string literals. -/
def literalTable : Nat := 0x70

namespace Code

/-- Reads the operand of the instruction that starts at `start`, with absolute targets. -/
def readOperand (literal : Nat → Result String) (start : Nat) :
    OperandKind → Reader (OperandAt Int)
  | .none => return .none
  | .int8 => do return .int32 (← Reader.byte).toInt8.toInt32
  | .uint8 => do return .int32 (.ofNat (← Reader.byte).toNat)
  | .int32 => do return .int32 (← Reader.u32).toInt32
  | .int64 => do return .int64 (← Reader.u64).toInt64
  | .float32 => do return .float32 (← Reader.u32)
  | .float64 => do return .float64 (← Reader.u64)
  | .shortSlot => do return .slot (← Reader.byte).toUInt16
  | .slot => do return .slot (← Reader.u16)
  | .token => do return .token ⟨← Reader.u32⟩
  | .string => do
    let token : Token := ⟨← Reader.u32⟩
    if token.tableNumber != literalTable then Reader.malformed (.literalTable start token)
    return .string (← Reader.ofResult (literal token.row))
  | .shortTarget => do
    let distance := (← Reader.byte).toInt8.toInt
    return .target ((← Reader.position) + distance)
  | .target => do
    let distance := (← Reader.u32).toInt32.toInt
    return .target ((← Reader.position) + distance)
  | .switch => do
    let count := (← Reader.u32).toNat
    if (← Reader.remaining) / 4 < count then Reader.malformed (.switchSize start count)
    let distances ← Reader.times count Reader.u32
    let next ← Reader.position
    return .switch (distances.map fun d => next + d.toInt32.toInt)

def readOpCode : Reader OpCode := do
  let first ← Reader.byte
  if first == 0xFE then return ⟨0xFE00 + (← Reader.byte).toUInt16⟩
  else return ⟨first.toUInt16⟩

/-- Reads one instruction with absolute targets. -/
def readRaw (literal : Nat → Result String) : Reader (InstructionAt Int) := do
  let start ← Reader.position
  let opcode ← readOpCode
  match opcode.operation? with
  | none => Reader.malformed (.undefinedOpcode opcode.value.toNat start)
  | some operation => return ⟨opcode, ← readOperand literal start operation.operand⟩

def absolute (start : Nat) (target : Int) : Result Nat :=
  if target < 0 then .error (.malformed (.branchNegative start target)) else .ok target.toNat

/-- Reads one instruction, whose targets are byte offsets. -/
def readInstruction (literal : Nat → Result String) : Reader Instruction := do
  let start ← Reader.position
  let raw ← readRaw literal
  Reader.ofResult (raw.mapM (absolute start))

end Code

/-- Instructions together with the offset of each, and the size of the code as the last offset. -/
structure DecodedBody where
  code : List Instruction
  offsets : List Nat
deriving DecidableEq

namespace DecodedBody

/-- The instruction that starts at the offset. -/
def indexOf? (b : DecodedBody) (offset : Nat) : Option Nat :=
  (b.offsets.take b.code.length).idxOf? offset

/-- The instruction that starts at the offset, or the number of instructions at the end. -/
def boundaryOf? (b : DecodedBody) (offset : Nat) : Option Nat := b.offsets.idxOf? offset

end DecodedBody

namespace Code

/-- Running out of data inside an instruction is a defect of that instruction. -/
def truncatedAt (start : Nat) : Error → Error
  | .outOfBounds => .malformed (.instructionTruncated start)
  | e => e

/-- Reads instructions up to the end, each with its offset. -/
def scan (literal : Nat → Result String) : Reader (List (Nat × InstructionAt Int)) :=
  Reader.untilEnd do
    let start ← Reader.position
    return (start, ← (readRaw literal).mapError (truncatedAt start))

/-- The index of the instruction that starts at the target. -/
def resolve (starts : List Nat) (start : Nat) (target : Int) : Result Nat :=
  match if target < 0 then none else starts.idxOf? target.toNat with
  | some index => .ok index
  | none => .error (.malformed (.branchTarget start target))

def decode (literal : Nat → Result String) (code : Bytes) : Result DecodedBody := do
  let scanned ← (scan literal).parse code
  let starts := scanned.map (·.1)
  let instructions ← scanned.mapM fun (start, raw) => raw.mapM (resolve starts start)
  return ⟨instructions, starts ++ [code.length]⟩

end Code

end CilWeaver
