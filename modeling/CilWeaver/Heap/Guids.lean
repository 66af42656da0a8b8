import CilWeaver.Error
import CilWeaver.Guid

/-!
The heap of identifiers of sixteen bytes, counted from one. Index zero is the nil identifier.
-/

namespace CilWeaver

structure GuidHeap where
  data : Bytes

namespace GuidHeap

def parse (data : Bytes) : Result GuidHeap :=
  if data.length % 16 = 0 then .ok ⟨data⟩
  else .error (.malformed (.guidHeapSize data.length))

def get (h : GuidHeap) (index : Nat) : Result Guid :=
  if index = 0 then .ok .nil
  else match Guid.ofBytes? ((h.data.drop (16 * (index - 1))).take 16) with
    | some g => .ok g
    | none => .error .outOfBounds

end GuidHeap

/-- A heap under construction, as the list of its entries. Equal identifiers share an entry. The number of entries is
    not bounded here; an index that does not fit four bytes is refused by the column that stores it. -/
structure GuidHeapBuilder where
  guids : List Guid := []

namespace GuidHeapBuilder

def add (value : Guid) : EStateM Error GuidHeapBuilder Nat := do
  let b ← get
  if value.isNil then return 0
  match b.guids.idxOf? value with
  | some position => return position + 1
  | none =>
    set (⟨b.guids ++ [value]⟩ : GuidHeapBuilder)
    return b.guids.length + 1

def size (b : GuidHeapBuilder) : Nat := 16 * b.guids.length

def isLarge (b : GuidHeapBuilder) : Bool := 0xFFFF < b.guids.length

def build (b : GuidHeapBuilder) : Bytes := b.guids.flatMap (·.bytes)

end GuidHeapBuilder

end CilWeaver
