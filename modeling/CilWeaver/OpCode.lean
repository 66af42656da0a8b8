import CilWeaver.Text.Digits

/-!
Operation codes of the intermediate language. Every 16-bit number is an `OpCode`; the catalogue says
which of them are defined, and with which operand and control flow.
-/

namespace CilWeaver

/-- What follows an operation code in the instruction stream. -/
inductive OperandKind where
  | none
  | int8
  | uint8
  | int32
  | int64
  | float32
  | float64
  | shortSlot
  | slot
  | shortTarget
  | target
  | switch
  | token
  | string
deriving DecidableEq, Repr

namespace OperandKind

/-- The size in bytes, missing for a jump table. -/
def size? : OperandKind → Option Nat
  | none => some 0
  | int8 | uint8 | shortSlot | shortTarget => some 1
  | slot => some 2
  | int32 | float32 | target | token | string => some 4
  | int64 | float64 => some 8
  | switch => Option.none

def name : OperandKind → String
  | none => "None"
  | int8 => "Int8"
  | uint8 => "UInt8"
  | int32 => "Int32"
  | int64 => "Int64"
  | float32 => "Float32"
  | float64 => "Float64"
  | shortSlot => "ShortVariable"
  | slot => "Variable"
  | shortTarget => "ShortTarget"
  | target => "Target"
  | switch => "Switch"
  | token => "Token"
  | string => "String"

end OperandKind

/-- Where control goes after an instruction. A `modifier` belongs to the instruction behind it. -/
inductive Flow where
  | sequential
  | conditionalBranch
  | unconditionalBranch
  | call
  | returns
  | switch
  | throw
  | endFinally
  | leave
  | modifier
deriving DecidableEq, Repr

namespace Flow

def name : Flow → String
  | sequential => "Sequential"
  | conditionalBranch => "ConditionalBranch"
  | unconditionalBranch => "UnconditionalBranch"
  | call => "Call"
  | returns => "Return"
  | switch => "Switch"
  | throw => "Throw"
  | endFinally => "EndFinally"
  | leave => "Leave"
  | modifier => "Prefix"

/-- Whether control may go to a target named in the instruction. -/
def isBranch : Flow → Bool
  | conditionalBranch | unconditionalBranch | switch | leave => true
  | _ => false

/-- Whether control never goes on to the next instruction. -/
def endsBlock : Flow → Bool
  | returns | throw | unconditionalBranch | leave | endFinally => true
  | _ => false

end Flow

/-- One defined operation. -/
structure Operation where
  code : Nat
  mnemonic : String
  operand : OperandKind
  flow : Flow
deriving DecidableEq, Repr

/-- An operation code; the two byte codes are those from `0xFE00` on. -/
structure OpCode where
  value : UInt16
deriving DecidableEq, Repr, Inhabited

namespace OpCode

/-- The defined operations in ascending order. -/
def catalogue : List Operation :=
   [⟨0x00, "nop", .none, .sequential⟩,
    ⟨0x01, "break", .none, .sequential⟩,
    ⟨0x02, "ldarg.0", .none, .sequential⟩,
    ⟨0x03, "ldarg.1", .none, .sequential⟩,
    ⟨0x04, "ldarg.2", .none, .sequential⟩,
    ⟨0x05, "ldarg.3", .none, .sequential⟩,
    ⟨0x06, "ldloc.0", .none, .sequential⟩,
    ⟨0x07, "ldloc.1", .none, .sequential⟩,
    ⟨0x08, "ldloc.2", .none, .sequential⟩,
    ⟨0x09, "ldloc.3", .none, .sequential⟩,
    ⟨0x0A, "stloc.0", .none, .sequential⟩,
    ⟨0x0B, "stloc.1", .none, .sequential⟩,
    ⟨0x0C, "stloc.2", .none, .sequential⟩,
    ⟨0x0D, "stloc.3", .none, .sequential⟩,
    ⟨0x0E, "ldarg.s", .shortSlot, .sequential⟩,
    ⟨0x0F, "ldarga.s", .shortSlot, .sequential⟩,
    ⟨0x10, "starg.s", .shortSlot, .sequential⟩,
    ⟨0x11, "ldloc.s", .shortSlot, .sequential⟩,
    ⟨0x12, "ldloca.s", .shortSlot, .sequential⟩,
    ⟨0x13, "stloc.s", .shortSlot, .sequential⟩,
    ⟨0x14, "ldnull", .none, .sequential⟩,
    ⟨0x15, "ldc.i4.m1", .none, .sequential⟩,
    ⟨0x16, "ldc.i4.0", .none, .sequential⟩,
    ⟨0x17, "ldc.i4.1", .none, .sequential⟩,
    ⟨0x18, "ldc.i4.2", .none, .sequential⟩,
    ⟨0x19, "ldc.i4.3", .none, .sequential⟩,
    ⟨0x1A, "ldc.i4.4", .none, .sequential⟩,
    ⟨0x1B, "ldc.i4.5", .none, .sequential⟩,
    ⟨0x1C, "ldc.i4.6", .none, .sequential⟩,
    ⟨0x1D, "ldc.i4.7", .none, .sequential⟩,
    ⟨0x1E, "ldc.i4.8", .none, .sequential⟩,
    ⟨0x1F, "ldc.i4.s", .int8, .sequential⟩,
    ⟨0x20, "ldc.i4", .int32, .sequential⟩,
    ⟨0x21, "ldc.i8", .int64, .sequential⟩,
    ⟨0x22, "ldc.r4", .float32, .sequential⟩,
    ⟨0x23, "ldc.r8", .float64, .sequential⟩,
    ⟨0x25, "dup", .none, .sequential⟩,
    ⟨0x26, "pop", .none, .sequential⟩,
    ⟨0x27, "jmp", .token, .call⟩,
    ⟨0x28, "call", .token, .call⟩,
    ⟨0x29, "calli", .token, .call⟩,
    ⟨0x2A, "ret", .none, .returns⟩,
    ⟨0x2B, "br.s", .shortTarget, .unconditionalBranch⟩,
    ⟨0x2C, "brfalse.s", .shortTarget, .conditionalBranch⟩,
    ⟨0x2D, "brtrue.s", .shortTarget, .conditionalBranch⟩,
    ⟨0x2E, "beq.s", .shortTarget, .conditionalBranch⟩,
    ⟨0x2F, "bge.s", .shortTarget, .conditionalBranch⟩,
    ⟨0x30, "bgt.s", .shortTarget, .conditionalBranch⟩,
    ⟨0x31, "ble.s", .shortTarget, .conditionalBranch⟩,
    ⟨0x32, "blt.s", .shortTarget, .conditionalBranch⟩,
    ⟨0x33, "bne.un.s", .shortTarget, .conditionalBranch⟩,
    ⟨0x34, "bge.un.s", .shortTarget, .conditionalBranch⟩,
    ⟨0x35, "bgt.un.s", .shortTarget, .conditionalBranch⟩,
    ⟨0x36, "ble.un.s", .shortTarget, .conditionalBranch⟩,
    ⟨0x37, "blt.un.s", .shortTarget, .conditionalBranch⟩,
    ⟨0x38, "br", .target, .unconditionalBranch⟩,
    ⟨0x39, "brfalse", .target, .conditionalBranch⟩,
    ⟨0x3A, "brtrue", .target, .conditionalBranch⟩,
    ⟨0x3B, "beq", .target, .conditionalBranch⟩,
    ⟨0x3C, "bge", .target, .conditionalBranch⟩,
    ⟨0x3D, "bgt", .target, .conditionalBranch⟩,
    ⟨0x3E, "ble", .target, .conditionalBranch⟩,
    ⟨0x3F, "blt", .target, .conditionalBranch⟩,
    ⟨0x40, "bne.un", .target, .conditionalBranch⟩,
    ⟨0x41, "bge.un", .target, .conditionalBranch⟩,
    ⟨0x42, "bgt.un", .target, .conditionalBranch⟩,
    ⟨0x43, "ble.un", .target, .conditionalBranch⟩,
    ⟨0x44, "blt.un", .target, .conditionalBranch⟩,
    ⟨0x45, "switch", .switch, .switch⟩,
    ⟨0x46, "ldind.i1", .none, .sequential⟩,
    ⟨0x47, "ldind.u1", .none, .sequential⟩,
    ⟨0x48, "ldind.i2", .none, .sequential⟩,
    ⟨0x49, "ldind.u2", .none, .sequential⟩,
    ⟨0x4A, "ldind.i4", .none, .sequential⟩,
    ⟨0x4B, "ldind.u4", .none, .sequential⟩,
    ⟨0x4C, "ldind.i8", .none, .sequential⟩,
    ⟨0x4D, "ldind.i", .none, .sequential⟩,
    ⟨0x4E, "ldind.r4", .none, .sequential⟩,
    ⟨0x4F, "ldind.r8", .none, .sequential⟩,
    ⟨0x50, "ldind.ref", .none, .sequential⟩,
    ⟨0x51, "stind.ref", .none, .sequential⟩,
    ⟨0x52, "stind.i1", .none, .sequential⟩,
    ⟨0x53, "stind.i2", .none, .sequential⟩,
    ⟨0x54, "stind.i4", .none, .sequential⟩,
    ⟨0x55, "stind.i8", .none, .sequential⟩,
    ⟨0x56, "stind.r4", .none, .sequential⟩,
    ⟨0x57, "stind.r8", .none, .sequential⟩,
    ⟨0x58, "add", .none, .sequential⟩,
    ⟨0x59, "sub", .none, .sequential⟩,
    ⟨0x5A, "mul", .none, .sequential⟩,
    ⟨0x5B, "div", .none, .sequential⟩,
    ⟨0x5C, "div.un", .none, .sequential⟩,
    ⟨0x5D, "rem", .none, .sequential⟩,
    ⟨0x5E, "rem.un", .none, .sequential⟩,
    ⟨0x5F, "and", .none, .sequential⟩,
    ⟨0x60, "or", .none, .sequential⟩,
    ⟨0x61, "xor", .none, .sequential⟩,
    ⟨0x62, "shl", .none, .sequential⟩,
    ⟨0x63, "shr", .none, .sequential⟩,
    ⟨0x64, "shr.un", .none, .sequential⟩,
    ⟨0x65, "neg", .none, .sequential⟩,
    ⟨0x66, "not", .none, .sequential⟩,
    ⟨0x67, "conv.i1", .none, .sequential⟩,
    ⟨0x68, "conv.i2", .none, .sequential⟩,
    ⟨0x69, "conv.i4", .none, .sequential⟩,
    ⟨0x6A, "conv.i8", .none, .sequential⟩,
    ⟨0x6B, "conv.r4", .none, .sequential⟩,
    ⟨0x6C, "conv.r8", .none, .sequential⟩,
    ⟨0x6D, "conv.u4", .none, .sequential⟩,
    ⟨0x6E, "conv.u8", .none, .sequential⟩,
    ⟨0x6F, "callvirt", .token, .call⟩,
    ⟨0x70, "cpobj", .token, .sequential⟩,
    ⟨0x71, "ldobj", .token, .sequential⟩,
    ⟨0x72, "ldstr", .string, .sequential⟩,
    ⟨0x73, "newobj", .token, .call⟩,
    ⟨0x74, "castclass", .token, .sequential⟩,
    ⟨0x75, "isinst", .token, .sequential⟩,
    ⟨0x76, "conv.r.un", .none, .sequential⟩,
    ⟨0x79, "unbox", .token, .sequential⟩,
    ⟨0x7A, "throw", .none, .throw⟩,
    ⟨0x7B, "ldfld", .token, .sequential⟩,
    ⟨0x7C, "ldflda", .token, .sequential⟩,
    ⟨0x7D, "stfld", .token, .sequential⟩,
    ⟨0x7E, "ldsfld", .token, .sequential⟩,
    ⟨0x7F, "ldsflda", .token, .sequential⟩,
    ⟨0x80, "stsfld", .token, .sequential⟩,
    ⟨0x81, "stobj", .token, .sequential⟩,
    ⟨0x82, "conv.ovf.i1.un", .none, .sequential⟩,
    ⟨0x83, "conv.ovf.i2.un", .none, .sequential⟩,
    ⟨0x84, "conv.ovf.i4.un", .none, .sequential⟩,
    ⟨0x85, "conv.ovf.i8.un", .none, .sequential⟩,
    ⟨0x86, "conv.ovf.u1.un", .none, .sequential⟩,
    ⟨0x87, "conv.ovf.u2.un", .none, .sequential⟩,
    ⟨0x88, "conv.ovf.u4.un", .none, .sequential⟩,
    ⟨0x89, "conv.ovf.u8.un", .none, .sequential⟩,
    ⟨0x8A, "conv.ovf.i.un", .none, .sequential⟩,
    ⟨0x8B, "conv.ovf.u.un", .none, .sequential⟩,
    ⟨0x8C, "box", .token, .sequential⟩,
    ⟨0x8D, "newarr", .token, .sequential⟩,
    ⟨0x8E, "ldlen", .none, .sequential⟩,
    ⟨0x8F, "ldelema", .token, .sequential⟩,
    ⟨0x90, "ldelem.i1", .none, .sequential⟩,
    ⟨0x91, "ldelem.u1", .none, .sequential⟩,
    ⟨0x92, "ldelem.i2", .none, .sequential⟩,
    ⟨0x93, "ldelem.u2", .none, .sequential⟩,
    ⟨0x94, "ldelem.i4", .none, .sequential⟩,
    ⟨0x95, "ldelem.u4", .none, .sequential⟩,
    ⟨0x96, "ldelem.i8", .none, .sequential⟩,
    ⟨0x97, "ldelem.i", .none, .sequential⟩,
    ⟨0x98, "ldelem.r4", .none, .sequential⟩,
    ⟨0x99, "ldelem.r8", .none, .sequential⟩,
    ⟨0x9A, "ldelem.ref", .none, .sequential⟩,
    ⟨0x9B, "stelem.i", .none, .sequential⟩,
    ⟨0x9C, "stelem.i1", .none, .sequential⟩,
    ⟨0x9D, "stelem.i2", .none, .sequential⟩,
    ⟨0x9E, "stelem.i4", .none, .sequential⟩,
    ⟨0x9F, "stelem.i8", .none, .sequential⟩,
    ⟨0xA0, "stelem.r4", .none, .sequential⟩,
    ⟨0xA1, "stelem.r8", .none, .sequential⟩,
    ⟨0xA2, "stelem.ref", .none, .sequential⟩,
    ⟨0xA3, "ldelem", .token, .sequential⟩,
    ⟨0xA4, "stelem", .token, .sequential⟩,
    ⟨0xA5, "unbox.any", .token, .sequential⟩,
    ⟨0xB3, "conv.ovf.i1", .none, .sequential⟩,
    ⟨0xB4, "conv.ovf.u1", .none, .sequential⟩,
    ⟨0xB5, "conv.ovf.i2", .none, .sequential⟩,
    ⟨0xB6, "conv.ovf.u2", .none, .sequential⟩,
    ⟨0xB7, "conv.ovf.i4", .none, .sequential⟩,
    ⟨0xB8, "conv.ovf.u4", .none, .sequential⟩,
    ⟨0xB9, "conv.ovf.i8", .none, .sequential⟩,
    ⟨0xBA, "conv.ovf.u8", .none, .sequential⟩,
    ⟨0xC2, "refanyval", .token, .sequential⟩,
    ⟨0xC3, "ckfinite", .none, .sequential⟩,
    ⟨0xC6, "mkrefany", .token, .sequential⟩,
    ⟨0xD0, "ldtoken", .token, .sequential⟩,
    ⟨0xD1, "conv.u2", .none, .sequential⟩,
    ⟨0xD2, "conv.u1", .none, .sequential⟩,
    ⟨0xD3, "conv.i", .none, .sequential⟩,
    ⟨0xD4, "conv.ovf.i", .none, .sequential⟩,
    ⟨0xD5, "conv.ovf.u", .none, .sequential⟩,
    ⟨0xD6, "add.ovf", .none, .sequential⟩,
    ⟨0xD7, "add.ovf.un", .none, .sequential⟩,
    ⟨0xD8, "mul.ovf", .none, .sequential⟩,
    ⟨0xD9, "mul.ovf.un", .none, .sequential⟩,
    ⟨0xDA, "sub.ovf", .none, .sequential⟩,
    ⟨0xDB, "sub.ovf.un", .none, .sequential⟩,
    ⟨0xDC, "endfinally", .none, .endFinally⟩,
    ⟨0xDD, "leave", .target, .leave⟩,
    ⟨0xDE, "leave.s", .shortTarget, .leave⟩,
    ⟨0xDF, "stind.i", .none, .sequential⟩,
    ⟨0xE0, "conv.u", .none, .sequential⟩,
    ⟨0xFE00, "arglist", .none, .sequential⟩,
    ⟨0xFE01, "ceq", .none, .sequential⟩,
    ⟨0xFE02, "cgt", .none, .sequential⟩,
    ⟨0xFE03, "cgt.un", .none, .sequential⟩,
    ⟨0xFE04, "clt", .none, .sequential⟩,
    ⟨0xFE05, "clt.un", .none, .sequential⟩,
    ⟨0xFE06, "ldftn", .token, .sequential⟩,
    ⟨0xFE07, "ldvirtftn", .token, .sequential⟩,
    ⟨0xFE09, "ldarg", .slot, .sequential⟩,
    ⟨0xFE0A, "ldarga", .slot, .sequential⟩,
    ⟨0xFE0B, "starg", .slot, .sequential⟩,
    ⟨0xFE0C, "ldloc", .slot, .sequential⟩,
    ⟨0xFE0D, "ldloca", .slot, .sequential⟩,
    ⟨0xFE0E, "stloc", .slot, .sequential⟩,
    ⟨0xFE0F, "localloc", .none, .sequential⟩,
    ⟨0xFE11, "endfilter", .none, .endFinally⟩,
    ⟨0xFE12, "unaligned.", .uint8, .modifier⟩,
    ⟨0xFE13, "volatile.", .none, .modifier⟩,
    ⟨0xFE14, "tail.", .none, .modifier⟩,
    ⟨0xFE15, "initobj", .token, .sequential⟩,
    ⟨0xFE16, "constrained.", .token, .modifier⟩,
    ⟨0xFE17, "cpblk", .none, .sequential⟩,
    ⟨0xFE18, "initblk", .none, .sequential⟩,
    ⟨0xFE19, "no.", .uint8, .modifier⟩,
    ⟨0xFE1A, "rethrow", .none, .throw⟩,
    ⟨0xFE1C, "sizeof", .token, .sequential⟩,
    ⟨0xFE1D, "refanytype", .none, .sequential⟩,
    ⟨0xFE1E, "readonly.", .none, .modifier⟩]

def operation? (o : OpCode) : Option Operation := catalogue.find? (·.code == o.value.toNat)

def mnemonic (o : OpCode) : String := (o.operation?.map (·.mnemonic)).getD "???"

def operandKind (o : OpCode) : OperandKind := (o.operation?.map (·.operand)).getD .none

def flow (o : OpCode) : Flow := (o.operation?.map (·.flow)).getD .sequential

def isBranch (o : OpCode) : Bool := o.flow.isBranch

def isTwoByte (o : OpCode) : Bool := 0xFF < o.value

def size (o : OpCode) : Nat := if o.isTwoByte then 2 else 1

def bytes (o : OpCode) : List UInt8 :=
  if o.isTwoByte then [(o.value >>> 8).toUInt8, o.value.toUInt8] else [o.value.toUInt8]

def ldcI4 : OpCode := ⟨0x20⟩
def call : OpCode := ⟨0x28⟩
def ret : OpCode := ⟨0x2A⟩
def ldstr : OpCode := ⟨0x72⟩
def leave : OpCode := ⟨0xDD⟩
def leaveShort : OpCode := ⟨0xDE⟩

/-- The branch with a four byte displacement that does the same. -/
def longForm? (o : OpCode) : Option OpCode :=
  if 0x2B ≤ o.value ∧ o.value ≤ 0x37 then some ⟨o.value + 0x0D⟩
  else if o = leaveShort then some leave
  else none

/-- The branch with a one byte displacement that does the same. -/
def shortForm? (o : OpCode) : Option OpCode :=
  if 0x38 ≤ o.value ∧ o.value ≤ 0x44 then some ⟨o.value - 0x0D⟩
  else if o = leave then some leaveShort
  else none

def detail (o : OpCode) : String := s!"OpCode(0x{Text.hex o.value.toNat 2}, {o.mnemonic})"

theorem length_bytes (o : OpCode) : o.bytes.length = o.size := by
  unfold bytes size
  split <;> rfl

end OpCode

end CilWeaver
