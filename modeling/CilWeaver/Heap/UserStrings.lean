import CilWeaver.Bytes.Compressed
import CilWeaver.Text.Utf16

/-!
The heap of string literals in UTF-16. An entry is its compressed length, the code units and a byte
that tells whether some unit needs more than a byte comparison. Index zero is no literal, so the
empty literal has an entry as well.
-/

namespace CilWeaver

structure UserStringHeap where
  data : Bytes

namespace UserStringHeap

def parse (data : Bytes) : Result UserStringHeap :=
  if data.head? = some 0 then .ok ⟨data⟩ else .error (.malformed (.heapStart .userStrings))

/-- The code units of the bytes, of which there is an even number. -/
def units : Bytes → List UInt16
  | a :: b :: rest => UInt16.ofNat (leNat [a, b]) :: units rest
  | _ => []

def readEntry (index : Nat) : Reader String := do
  let length ← Reader.compressed
  if length % 2 != 1 then Reader.malformed (.userStringLength length index)
  match Utf16.decode? (units (← Reader.take (length - 1))) with
  | some text => return String.ofList text
  | none => Reader.malformed (.userStringNotUtf16 index)

def get (h : UserStringHeap) (index : Nat) : Result String :=
  if index = 0 then .error .outOfBounds else (readEntry index).parse (h.data.drop index)

end UserStringHeap

/-- A heap under construction. Equal literals share an entry. -/
structure UserStringHeapBuilder where
  data : Bytes := [0]
  entries : List (String × Nat) := []

namespace UserStringHeapBuilder

/-- Whether a code unit sorts or shows differently from its low byte alone. -/
def isSpecial (unit : UInt16) : Bool :=
  0x7F ≤ unit || (0x01 ≤ unit && unit ≤ 0x08) || (0x0E ≤ unit && unit ≤ 0x1F)
    || unit == 0x27 || unit == 0x2D

/-- The highest index that a literal's token can hold. -/
def maxIndex : Nat := 0xFFFFFF

def add (text : String) : EStateM Error UserStringHeapBuilder Nat := do
  let b ← get
  match b.entries.lookup text with
  | some index => return index
  | none =>
    let index := b.data.length
    if maxIndex < index then throw (.malformed (.heapTooLarge .userStrings))
    let units := Utf16.encode text.toList
    match compressed (2 * units.length + 1) with
    | .error e => throw e
    | .ok length =>
      let mark : UInt8 := if units.any isSpecial then 1 else 0
      set (⟨b.data ++ length ++ units.flatMap u16Bytes ++ [mark], b.entries ++ [(text, index)]⟩ :
        UserStringHeapBuilder)
      return index

def isLarge (b : UserStringHeapBuilder) : Bool := 0xFFFF < b.data.length

def build (b : UserStringHeapBuilder) : Bytes := padTo 4 b.data

end UserStringHeapBuilder

end CilWeaver
