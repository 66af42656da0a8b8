import CilWeaver.Bytes.Reader

/-!
The debug record of a module image: which symbol file belongs to it.
-/

namespace CilWeaver

/-- The identifier of twenty bytes that ties a module image to its symbol image. -/
structure ImageId where
  bytes : Bytes
  length_eq : bytes.length = 20
deriving DecidableEq

namespace ImageId

def size : Nat := 20

def zero : ImageId := ⟨zeros size, rfl⟩

instance : Inhabited ImageId := ⟨zero⟩

/-- The first twenty bytes, with zeros for those that are missing. -/
def ofBytes (bytes : Bytes) : ImageId :=
  ⟨(bytes ++ zeros size).take size, by simp [zeros, size]⟩

theorem bytes_ofBytes {bytes : Bytes} (h : bytes.length = size) :
    (ofBytes bytes).bytes = bytes := by
  simp [ofBytes, ← h]

/-- Reads an identifier, or fails with the given defect. -/
def read (missing : Defect) : Reader ImageId := do
  return ofBytes (← (Reader.take size).orDefect missing)

end ImageId

structure CodeViewRecord where
  id : ImageId
  age : UInt32
  path : String
deriving DecidableEq

namespace CodeViewRecord

def signature : UInt32 := 0x53445352

def read : Reader CodeViewRecord := do
  let found ← Reader.u32.orDefect .codeViewTooSmall
  if found != signature then Reader.malformed (.codeViewSignature found)
  let id ← ImageId.read .codeViewTruncated
  let age ← Reader.u32
  let path ← Reader.zeroTerminated
  return ⟨id, age, path⟩

def parse (data : Bytes) : Result CodeViewRecord := read.parse data

def build (r : CodeViewRecord) : Bytes :=
  u32Bytes signature ++ r.id.bytes ++ u32Bytes r.age ++ utf8Bytes r.path ++ [0]

end CodeViewRecord

end CilWeaver
