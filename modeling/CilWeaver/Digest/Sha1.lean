import CilWeaver.Debug.CodeView

/-!
The hash function SHA-1, from bytes to an identifier of twenty bytes.
-/

namespace CilWeaver.Sha1

def rotateLeft (word : UInt32) (bits : UInt32) : UInt32 :=
  (word <<< bits) ||| (word >>> (32 - bits))

/-- The five words that a block changes. -/
structure Chaining where
  a : UInt32
  b : UInt32
  c : UInt32
  d : UInt32
  e : UInt32
deriving DecidableEq

def start : Chaining := ⟨0x67452301, 0xEFCDAB89, 0x98BADCFE, 0x10325476, 0xC3D2E1F0⟩

/-- The bytes of a number, most significant byte first. -/
def beBytes (count n : Nat) : Bytes := (leBytes count n).reverse

/-- The message with a one bit, zeros, and its length in bits behind it; blocks have 64 bytes. -/
def pad (message : Bytes) : Bytes :=
  let marked := message ++ [0x80]
  marked ++ zeros ((56 + 64 - marked.length % 64) % 64) ++ beBytes 8 (8 * message.length)

/-- The words of a block, most significant byte first. -/
def words : Bytes → List UInt32
  | a :: b :: c :: d :: rest => .ofNat (leNat [d, c, b, a]) :: words rest
  | _ => []

/-- The word behind those of the schedule so far. -/
def nextWord (w : Array UInt32) : UInt32 :=
  let back (distance : Nat) : UInt32 := w[w.size - distance]?.getD 0
  rotateLeft (back 3 ^^^ back 8 ^^^ back 14 ^^^ back 16) 1

/-- The eighty words that a block of sixteen words is expanded to. -/
def schedule (block : List UInt32) : List UInt32 :=
  ((List.range 64).foldl (fun w _ => w.push (nextWord w)) block.toArray).toList

/-- The function and the constant of a round. -/
def round (t : Nat) (x y z : UInt32) : UInt32 × UInt32 :=
  if t < 20 then ((x &&& y) ||| (~~~x &&& z), 0x5A827999)
  else if t < 40 then (x ^^^ y ^^^ z, 0x6ED9EBA1)
  else if t < 60 then ((x &&& y) ||| (x &&& z) ||| (y &&& z), 0x8F1BBCDC)
  else (x ^^^ y ^^^ z, 0xCA62C1D6)

def step (s : Chaining) (word : UInt32 × Nat) : Chaining :=
  let (f, constant) := round word.2 s.b s.c s.d
  ⟨rotateLeft s.a 5 + f + s.e + constant + word.1, s.a, rotateLeft s.b 30, s.c, s.d⟩

def compress (h : Chaining) (block : List UInt32) : Chaining :=
  let s := (schedule block).zipIdx.foldl step h
  ⟨h.a + s.a, h.b + s.b, h.c + s.c, h.d + s.d, h.e + s.e⟩

/-- Cuts a list into pieces of `size`; what is left over at the end is dropped. -/
def chunks {α : Type} (size : Nat) : (count : Nat) → List α → List (List α)
  | 0, _ => []
  | count + 1, items => items.take size :: chunks size count (items.drop size)

def digest (message : Bytes) : ImageId :=
  let blocks := words (pad message)
  let h := (chunks 16 (blocks.length / 16) blocks).foldl compress start
  .ofBytes ([h.a, h.b, h.c, h.d, h.e].flatMap fun word => beBytes 4 word.toNat)

end CilWeaver.Sha1
