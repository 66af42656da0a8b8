import CilWeaver.Bytes.Compressed

/-!
The heap of byte strings, each behind its compressed length. Index zero is the empty one.
-/

namespace CilWeaver

structure BlobHeap where
  data : Bytes

namespace BlobHeap

def parse (data : Bytes) : Result BlobHeap :=
  if data.head? = some 0 then .ok ⟨data⟩ else .error (.malformed (.heapStart .blobs))

def get (h : BlobHeap) (index : Nat) : Result Bytes :=
  Reader.parse (do Reader.take (← Reader.compressed)) (h.data.drop index)

end BlobHeap

/-- A heap under construction. Equal byte strings share an entry. -/
structure BlobHeapBuilder where
  data : Bytes := [0]
  entries : List (Bytes × Nat) := []

namespace BlobHeapBuilder

def add (value : Bytes) : EStateM Error BlobHeapBuilder Nat := do
  let b ← get
  if value.isEmpty then return 0
  match b.entries.lookup value with
  | some index => return index
  | none =>
    let index := b.data.length
    if 2 ^ 32 ≤ index then throw (.malformed (.heapTooLarge .blobs))
    match compressed value.length with
    | .error e => throw e
    | .ok length =>
      set (⟨b.data ++ length ++ value, b.entries ++ [(value, index)]⟩ : BlobHeapBuilder)
      return index

def isLarge (b : BlobHeapBuilder) : Bool := 0xFFFF < b.data.length

def build (b : BlobHeapBuilder) : Bytes := padTo 4 b.data

end BlobHeapBuilder

end CilWeaver
