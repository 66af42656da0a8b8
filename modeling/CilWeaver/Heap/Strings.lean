import CilWeaver.Bytes.Reader

/-!
The heap of identifiers: texts that end with a zero byte. Index zero is the empty text.
-/

namespace CilWeaver

structure StringHeap where
  data : Bytes

namespace StringHeap

def parse (data : Bytes) : Result StringHeap :=
  if data.head? = some 0 then .ok ⟨data⟩ else .error (.malformed (.heapStart .strings))

def get (h : StringHeap) (index : Nat) : Result String :=
  let tail := h.data.drop index
  let bytes := tail.takeWhile (· != 0)
  if tail.isEmpty then .error .outOfBounds
  else if bytes.length = tail.length then .error (.malformed (.unterminatedString index))
  else match Utf8.decode? bytes with
    | some text => .ok (String.ofList text)
    | none => .error (.malformed (.stringNotUtf8 index))

end StringHeap

/-- A heap under construction. Equal texts share an entry. -/
structure StringHeapBuilder where
  data : Bytes := [0]
  entries : List (String × Nat) := []

namespace StringHeapBuilder

def add (text : String) : EStateM Error StringHeapBuilder Nat := do
  let b ← get
  if text.isEmpty then return 0
  match b.entries.lookup text with
  | some index => return index
  | none =>
    if '\x00' ∈ text.toList then throw (.malformed (.nulInIdentifier text))
    let index := b.data.length
    if 2 ^ 32 ≤ index then throw (.malformed (.heapTooLarge .strings))
    set (⟨b.data ++ utf8Bytes text ++ [0], b.entries ++ [(text, index)]⟩ : StringHeapBuilder)
    return index

def isLarge (b : StringHeapBuilder) : Bool := 0xFFFF < b.data.length

def build (b : StringHeapBuilder) : Bytes := padTo 4 b.data

end StringHeapBuilder

end CilWeaver
