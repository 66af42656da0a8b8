import CilWeaver.Signature.Basic

/-!
The bytes that begin the types and signatures of a signature blob.
-/

namespace CilWeaver

namespace Primitive

def code : Primitive → UInt8
  | void => 0x01
  | boolean => 0x02
  | char => 0x03
  | int8 => 0x04
  | uint8 => 0x05
  | int16 => 0x06
  | uint16 => 0x07
  | int32 => 0x08
  | uint32 => 0x09
  | int64 => 0x0A
  | uint64 => 0x0B
  | float32 => 0x0C
  | float64 => 0x0D
  | string => 0x0E
  | typedReference => 0x16
  | nativeInt => 0x18
  | nativeUInt => 0x19
  | object => 0x1C

def all : List Primitive :=
  [void, boolean, char, int8, uint8, int16, uint16, int32, uint32, int64, uint64, float32, float64,
   string, typedReference, nativeInt, nativeUInt, object]

def ofCode? (code : UInt8) : Option Primitive := all.find? (·.code == code)

theorem ofCode?_code (p : Primitive) : ofCode? p.code = some p := by cases p <;> decide

theorem code_of_ofCode? {c : UInt8} {p : Primitive} (h : ofCode? c = some p) : p.code = c := by
  simpa using List.find?_some h

end Primitive

namespace Element

def pointer : UInt8 := 0x0F
def byReference : UInt8 := 0x10
def valueType : UInt8 := 0x11
def classType : UInt8 := 0x12
def typeParameter : UInt8 := 0x13
def array : UInt8 := 0x14
def generic : UInt8 := 0x15
def function : UInt8 := 0x1B
def vector : UInt8 := 0x1D
def methodParameter : UInt8 := 0x1E
def requiredModifier : UInt8 := 0x1F
def optionalModifier : UInt8 := 0x20
/-- Stands in front of the arguments beyond the declared parameters. -/
def sentinel : UInt8 := 0x41
def pinned : UInt8 := 0x45

end Element

namespace SignatureHeader

/-- The bits of a method header that hold the calling convention. -/
def conventionMask : UInt8 := 0x0F
def generic : UInt8 := 0x10
def hasThis : UInt8 := 0x20
def explicitThis : UInt8 := 0x40
def field : UInt8 := 0x06
def locals : UInt8 := 0x07

end SignatureHeader

/-- How deep types may nest in a signature. -/
def maxTypeNesting : Nat := 50

/-- How many locals a method may have. -/
def maxLocals : Nat := 0xFFFE

end CilWeaver
