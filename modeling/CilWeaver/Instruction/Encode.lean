import CilWeaver.Bytes.LittleEndian
import CilWeaver.Error
import CilWeaver.Instruction.Basic

/-!
Encoding instructions. A short branch whose target is too far away is promoted to its long form,
which moves the instructions behind it; rounds of promotion go on until every short branch reaches
its target.
-/

namespace CilWeaver

/-- Whether a distance fits one signed byte. -/
def fitsShort (distance : Int) : Bool := -128 ≤ distance && distance ≤ 127

namespace Instruction

def operandSize (i : Instruction) : Nat :=
  match i.opcode.operandKind, i.operand with
  | .switch, .switch targets => 4 + 4 * targets.length
  | kind, _ => kind.size?.getD 0

def size (i : Instruction) : Nat := i.opcode.size + i.operandSize

/-- Whether the operand is of the kind the opcode takes and in its range, apart from targets. -/
def operandFits (kind : OperandKind) (operand : Operand) : Bool :=
  match kind, operand with
  | .none, .none => true
  | .int8, .int32 v => -128 ≤ v && v ≤ 127
  | .uint8, .int32 v => 0 ≤ v && v ≤ 255
  | .int32, .int32 _ => true
  | .int64, .int64 _ => true
  | .float32, .float32 _ => true
  | .float64, .float64 _ => true
  | .shortSlot, .slot i => i ≤ 0xFF
  | .slot, .slot _ => true
  | .token, .token _ => true
  | .string, .string _ => true
  | .shortTarget, .target _ => true
  | .target, .target _ => true
  | .switch, .switch _ => true
  | _, _ => false

/-- Checks the instruction with the given index in a body of `count` instructions. -/
def check (count index : Nat) (i : Instruction) : Except EmissionFault Unit :=
  match i.opcode.operation? with
  | none => .error (.undefinedOpcode index i.opcode.value.toNat)
  | some operation =>
    if !operandFits operation.operand i.operand then
      .error (.operandMismatch i.operand index operation.mnemonic)
    else match i.operand, i.targets.find? (count ≤ ·) with
      | _, none => .ok ()
      | .switch _, some target => .error (.switchTarget index target count)
      | _, some target => .error (.branchTarget index operation.mnemonic target count)

end Instruction

namespace Code

/-- Checks all instructions in order. -/
def check (code : List Instruction) : Except EmissionFault Unit :=
  (code.zipIdx.mapM fun (i, index) => Instruction.check code.length index i).map fun _ => ()

/-- The offset of each instruction when the first one is at `start`, and the end as the last one. -/
def offsetsFrom (start : Nat) : List Instruction → List Nat
  | [] => [start]
  | i :: code => start :: offsetsFrom (start + i.size) code

def offsets (code : List Instruction) : List Nat := offsetsFrom 0 code

/-- The distance from the end of an instruction, at `next`, to the instruction with index
    `target`. -/
def distance (offsets : Array Nat) (next target : Nat) : Int :=
  (offsets[target]?.getD 0 : Nat) - (next : Int)

/-- The long form of a short branch whose target is out of reach. -/
def widen (offsets : Array Nat) (next : Nat) (i : Instruction) : Instruction :=
  match i.opcode.operandKind, i.operand with
  | .shortTarget, .target target =>
    if fitsShort (distance offsets next target) then i
    else { i with opcode := i.opcode.longForm?.getD i.opcode }
  | _, _ => i

/-- Widens every short branch that does not reach its target in the present layout. -/
def promoteOnce (code : List Instruction) : List Instruction :=
  let offsets := offsets code
  List.zipWith (widen offsets.toArray) offsets.tail code

def promoteRounds : (rounds : Nat) → List Instruction → List Instruction
  | 0, code => code
  | rounds + 1, code =>
    let next := promoteOnce code
    if next == code then code else promoteRounds rounds next

/-- Each round but the last widens a branch, so as many rounds as instructions are enough. -/
def promote (code : List Instruction) : List Instruction := promoteRounds code.length code

def encodeOperand {σ : Type} (literal : String → EStateM Error σ Nat) (context : String)
    (offsets : Array Nat) (next : Nat) (kind : OperandKind) : Operand → EStateM Error σ Bytes
  | .none => return []
  | .int32 v => return leIntBytes (if kind = .int32 then 4 else 1) v.toInt
  | .int64 v => return leIntBytes 8 v.toInt
  | .float32 bits => return u32Bytes bits
  | .float64 bits => return u64Bytes bits
  | .slot i => return leBytes (if kind = .slot then 2 else 1) i.toNat
  | .token t => return u32Bytes t.value
  | .string text => do
    let index ← literal text
    if 0xFFFFFF < index then throw (.emission context (.literalIndex index))
    return leBytes 4 (0x70000000 + index)
  | .target t => return leIntBytes (if kind = .target then 4 else 1) (distance offsets next t)
  | .switch ts =>
    return leBytes 4 ts.length ++ ts.flatMap fun t => leIntBytes 4 (distance offsets next t)

/-- Encodes instructions in order; `next` goes along with the end of each. -/
def encodeInstructions {σ : Type} (literal : String → EStateM Error σ Nat) (context : String)
    (offsets : Array Nat) (done : List Bytes) :
    List Nat → List Instruction → EStateM Error σ Bytes
  | next :: ends, i :: code => do
    let operand ←
      encodeOperand literal context offsets next i.opcode.operandKind i.operand
    encodeInstructions literal context offsets ((i.opcode.bytes ++ operand) :: done) ends code
  | _, _ => return done.reverse.flatten

end Code

/-- Encoded code, the offset of each instruction and the end, and the number of short branches that
    were promoted. -/
structure EncodedBody where
  bytes : Bytes
  offsets : List Nat
  promoted : Nat
deriving DecidableEq

/-- Encodes a body. `literal` gives each string literal its index, in the order of the
    instructions. -/
def Code.encode {σ : Type} (literal : String → EStateM Error σ Nat) (context : String)
    (code : List Instruction) : EStateM Error σ EncodedBody := do
  match Code.check code with
  | .error fault => throw (.emission context fault)
  | .ok () =>
    let final := promote code
    let offsets := offsets final
    let bytes ← encodeInstructions literal context offsets.toArray [] offsets.tail final
    let promoted := (code.zip final).countP fun (before, after) => before.opcode != after.opcode
    return ⟨bytes, offsets, promoted⟩

end CilWeaver
