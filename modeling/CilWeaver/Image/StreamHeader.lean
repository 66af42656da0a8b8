import CilWeaver.Bytes.Reader

/-!
Headers of the streams of an image: the range of the stream, and its name in a field of its own
length, filled up to a multiple of four.
-/

namespace CilWeaver

/-! The names of the streams this library knows. -/

namespace StreamName

def tables : String := "#~"
def strings : String := "#Strings"
def userStrings : String := "#US"
def guids : String := "#GUID"
def blobs : String := "#Blob"
def il : String := "#IL"
def codeView : String := "#CV"
def pdb : String := "#Pdb"

def known : List String := [tables, strings, userStrings, guids, blobs, il, codeView, pdb]

/-- The longest name, counted in bytes of UTF-8. -/
def maxSize : Nat := 32

end StreamName

structure StreamHeader where
  name : String
  offset : Nat
  size : Nat
deriving DecidableEq

namespace StreamHeader

/-- Reads one character a byte up to a zero byte. `done` holds the characters so far, last one
    first, and `size` their size in UTF-8. -/
def readNameFrom (start size : Nat) (done : List Char) : (fuel : Nat) → Reader String
  | 0 => throw .outOfBounds
  | fuel + 1 => do
    let b ← Reader.byte
    if b == 0 then return String.ofList done.reverse
    if size == StreamName.maxSize then Reader.malformed (.unterminatedStreamName start)
    let c := Char.ofNat b.toNat
    readNameFrom start (size + c.utf8Size) (c :: done) fuel

/-- A name ends with the data at the latest, so one step a byte is enough. -/
def readName : Reader String := fun c => readNameFrom c.position 0 [] (c.rest.length + 1) c

def read : Reader StreamHeader := do
  let offset ← Reader.u32
  let size ← Reader.u32
  let name ← readName
  Reader.align 4
  if !StreamName.known.contains name then Reader.malformed (.unknownStream name)
  return ⟨name, offset.toNat, size.toNat⟩

def diskSize (name : String) : Nat := 8 + (name.utf8ByteSize + 1 + 3) / 4 * 4

/-- Writes a header behind `out`, and zeros up to the next multiple of four. -/
def appendTo (out : Bytes) (h : StreamHeader) : Bytes :=
  padTo 4 (out ++ leBytes 4 h.offset ++ leBytes 4 h.size ++ utf8Bytes h.name ++ [0])

end StreamHeader

end CilWeaver
