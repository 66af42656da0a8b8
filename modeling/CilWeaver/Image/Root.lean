import CilWeaver.Image.StreamHeader

/-!
The root of an image: a version text and the directory of the streams. Images are built from a
version and a list of streams, which follow the root in order.
-/

namespace CilWeaver

structure Root where
  major : UInt16
  minor : UInt16
  version : String
  flags : UInt16
  streams : List StreamHeader
deriving DecidableEq

namespace Root

def magic : UInt32 := 0x424A5342

/-- The longest version field, the bytes that fill it up included. -/
def maxVersionSize : Nat := 255

/-- Reads `count` headers of streams that lie inside the image and have different names. `done`
    holds the headers so far, last one first. -/
def readHeaders (imageSize : Nat) (done : List StreamHeader) :
    (count : Nat) → Reader (List StreamHeader)
  | 0 => return done.reverse
  | count + 1 => do
    let h ← StreamHeader.read
    if 2 ^ 32 ≤ h.offset + h.size || imageSize < h.offset + h.size then
      Reader.malformed (.streamOutside h.name h.offset h.size)
    if done.any (·.name == h.name) then Reader.malformed (.duplicateStream h.name)
    readHeaders imageSize (h :: done) count

def read (imageSize : Nat) : Reader Root := do
  let signature ← Reader.u32.orDefect .imageTooSmall
  if signature != magic then Reader.malformed (.wrongMagic signature)
  let major ← Reader.u16
  let minor ← Reader.u16
  if major != 1 || minor != 1 then Reader.malformed (.rootVersion major.toNat minor.toNat)
  let _ ← Reader.u32
  let versionSize := (← Reader.u32).toNat
  if maxVersionSize < versionSize then Reader.malformed (.versionLength versionSize)
  let field ← Reader.take versionSize
  let some version := Utf8.decode? (field.takeWhile (· != 0))
    | Reader.malformed .versionNotUtf8
  let flags ← Reader.u16
  let count ← Reader.u16
  if count == 0 then Reader.malformed .noStreams
  let streams ← readHeaders imageSize [] count.toNat
  return ⟨major, minor, String.ofList version, flags, streams⟩

def parse (data : Bytes) : Result Root := (read data.length).parse data

/-- The data of the stream with the given name. -/
def stream? (root : Root) (data : Bytes) (name : String) : Option Bytes :=
  (root.streams.find? (·.name == name)).map fun h => (data.drop h.offset).take h.size

/-- The size of the version field: at least one zero byte ends the text. -/
def versionFieldSize (version : String) : Nat := (version.utf8ByteSize + 1 + 3) / 4 * 4

/-- The headers of the streams when the first one starts at `offset`. -/
def directory : (offset : Nat) → List (String × Bytes) → Result (List StreamHeader)
  | _, [] => .ok []
  | offset, (name, data) :: streams => do
    let size := (data.length + 3) / 4 * 4
    if 2 ^ 32 ≤ offset then .error (.malformed .imageTooLarge)
    else if 2 ^ 32 ≤ size then .error (.malformed .streamTooLarge)
    else return ⟨name, offset, size⟩ :: (← directory (offset + size) streams)

/-- The image with the given streams. -/
def build (version : String) (streams : List (String × Bytes)) : Result Bytes := do
  let versionSize := versionFieldSize version
  if maxVersionSize < versionSize then .error (.malformed (.versionTooLong version))
  let rootSize := 20 + versionSize + (streams.map fun s => StreamHeader.diskSize s.1).sum
  let headers ← directory rootSize streams
  let field := utf8Bytes version ++ zeros (versionSize - version.utf8ByteSize)
  let start := u32Bytes magic ++ u16Bytes 1 ++ u16Bytes 1 ++ u32Bytes 0 ++ leBytes 4 versionSize
    ++ field ++ u16Bytes 0 ++ leBytes 2 streams.length
  return headers.foldl StreamHeader.appendTo start ++ streams.flatMap fun s => padTo 4 s.2

end Root

end CilWeaver
