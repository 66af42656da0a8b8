import CilWeaver.Machine.Arithmetic
import CilWeaver.OpCode

/-!
What the operations do that the emulated machine knows. The long and the short form of an operation
do the same.
-/

namespace CilWeaver

/-- What an operation does. Where an index or a literal is missing, the operand holds it. -/
inductive Effect where
  | nothing
  | loadArgument (index? : Option Nat)
  | storeArgument
  | loadLocal (index? : Option Nat)
  | storeLocal (index? : Option Nat)
  | constant (n : Int32)
  | literal
  | duplicate
  | discard
  | arithmetic (op : Arithmetic)
  | shift (s : Shift)
  | negate
  | complement
  | convert (c : Conversion)
  | compare (c : Comparison)
  | jump
  /-- Jumps if the truth of the value on top is this. -/
  | jumpIf (truth : Bool)
  | jumpWhen (c : Comparison)
  | select
  | call
  | finish
deriving DecidableEq

namespace OpCode

def effects : List (Nat × Effect) :=
  [(0x00, .nothing),
    (0x02, .loadArgument (some 0)),
    (0x03, .loadArgument (some 1)),
    (0x04, .loadArgument (some 2)),
    (0x05, .loadArgument (some 3)),
    (0x06, .loadLocal (some 0)),
    (0x07, .loadLocal (some 1)),
    (0x08, .loadLocal (some 2)),
    (0x09, .loadLocal (some 3)),
    (0x0A, .storeLocal (some 0)),
    (0x0B, .storeLocal (some 1)),
    (0x0C, .storeLocal (some 2)),
    (0x0D, .storeLocal (some 3)),
    (0x0E, .loadArgument none),
    (0x10, .storeArgument),
    (0x11, .loadLocal none),
    (0x13, .storeLocal none),
    (0x15, .constant (-1)),
    (0x16, .constant 0),
    (0x17, .constant 1),
    (0x18, .constant 2),
    (0x19, .constant 3),
    (0x1A, .constant 4),
    (0x1B, .constant 5),
    (0x1C, .constant 6),
    (0x1D, .constant 7),
    (0x1E, .constant 8),
    (0x1F, .literal),
    (0x20, .literal),
    (0x21, .literal),
    (0x25, .duplicate),
    (0x26, .discard),
    (0x28, .call),
    (0x2A, .finish),
    (0x2B, .jump),
    (0x2C, .jumpIf false),
    (0x2D, .jumpIf true),
    (0x2E, .jumpWhen ⟨.equal, false⟩),
    (0x2F, .jumpWhen ⟨.greaterOrEqual, false⟩),
    (0x30, .jumpWhen ⟨.greater, false⟩),
    (0x31, .jumpWhen ⟨.lessOrEqual, false⟩),
    (0x32, .jumpWhen ⟨.less, false⟩),
    (0x33, .jumpWhen ⟨.notEqual, true⟩),
    (0x34, .jumpWhen ⟨.greaterOrEqual, true⟩),
    (0x35, .jumpWhen ⟨.greater, true⟩),
    (0x36, .jumpWhen ⟨.lessOrEqual, true⟩),
    (0x37, .jumpWhen ⟨.less, true⟩),
    (0x38, .jump),
    (0x39, .jumpIf false),
    (0x3A, .jumpIf true),
    (0x3B, .jumpWhen ⟨.equal, false⟩),
    (0x3C, .jumpWhen ⟨.greaterOrEqual, false⟩),
    (0x3D, .jumpWhen ⟨.greater, false⟩),
    (0x3E, .jumpWhen ⟨.lessOrEqual, false⟩),
    (0x3F, .jumpWhen ⟨.less, false⟩),
    (0x40, .jumpWhen ⟨.notEqual, true⟩),
    (0x41, .jumpWhen ⟨.greaterOrEqual, true⟩),
    (0x42, .jumpWhen ⟨.greater, true⟩),
    (0x43, .jumpWhen ⟨.lessOrEqual, true⟩),
    (0x44, .jumpWhen ⟨.less, true⟩),
    (0x45, .select),
    (0x58, .arithmetic .add),
    (0x59, .arithmetic .sub),
    (0x5A, .arithmetic .mul),
    (0x5B, .arithmetic .div),
    (0x5C, .arithmetic .divUnsigned),
    (0x5D, .arithmetic .rem),
    (0x5E, .arithmetic .remUnsigned),
    (0x5F, .arithmetic .and),
    (0x60, .arithmetic .or),
    (0x61, .arithmetic .xor),
    (0x62, .shift .left),
    (0x63, .shift .right),
    (0x64, .shift .rightUnsigned),
    (0x65, .negate),
    (0x66, .complement),
    (0x67, .convert .int8),
    (0x68, .convert .int16),
    (0x69, .convert .word),
    (0x6A, .convert .int64),
    (0x6D, .convert .word),
    (0x6E, .convert .uint64),
    (0xD1, .convert .uint16),
    (0xD2, .convert .uint8),
    (0xFE01, .compare ⟨.equal, false⟩),
    (0xFE02, .compare ⟨.greater, false⟩),
    (0xFE03, .compare ⟨.greater, true⟩),
    (0xFE04, .compare ⟨.less, false⟩),
    (0xFE05, .compare ⟨.less, true⟩),
    (0xFE09, .loadArgument none),
    (0xFE0B, .storeArgument),
    (0xFE0C, .loadLocal none),
    (0xFE0E, .storeLocal none)]

/-- The effect of an operation, missing for one that the machine does not know. -/
def effect? (o : OpCode) : Option Effect := effects.lookup o.value.toNat

end OpCode

end CilWeaver
