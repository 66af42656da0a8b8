import CilWeaver.Bytes.Reader

/-!
Compressed integers of one, two or four bytes. The high bits of the first byte tell the width, and
the payload has its most significant byte first.
-/

namespace CilWeaver

namespace Compressed

inductive Width where
  | one
  | two
  | four
deriving DecidableEq, Repr

/-- The number of payload bits. -/
def Width.bits : Width → Nat
  | one => 7
  | two => 14
  | four => 29

/-- Writes a payload that fits the width. -/
def Width.write (w : Width) (payload : Nat) : Bytes :=
  match w with
  | one => [UInt8.ofNat payload]
  | two => [UInt8.ofNat (0x80 + payload / 2 ^ 8), UInt8.ofNat payload]
  | four =>
    [UInt8.ofNat (0xC0 + payload / 2 ^ 24), UInt8.ofNat (payload / 2 ^ 16),
     UInt8.ofNat (payload / 2 ^ 8), UInt8.ofNat payload]

/-- The narrowest width of a natural number. -/
def width? (n : Nat) : Option Width :=
  if n < 2 ^ 7 then some .one
  else if n < 2 ^ 14 then some .two
  else if n < 2 ^ 29 then some .four
  else none

/-- The narrowest width of an integer, of which one bit is the sign. -/
def signedWidth? (n : Int) : Option Width :=
  if -2 ^ 6 ≤ n ∧ n < 2 ^ 6 then some .one
  else if -2 ^ 13 ≤ n ∧ n < 2 ^ 13 then some .two
  else if -2 ^ 28 ≤ n ∧ n < 2 ^ 28 then some .four
  else none

/-- The sign moves into the lowest bit of the payload. -/
def Width.rotate (w : Width) (n : Int) : Nat :=
  if n < 0 then 2 * (n + 2 ^ (w.bits - 1)).toNat + 1 else 2 * n.toNat

def Width.unrotate (w : Width) (payload : Nat) : Int :=
  if payload % 2 = 0 then Int.ofNat (payload / 2)
  else Int.ofNat (payload / 2) - 2 ^ (w.bits - 1)

end Compressed

/-- A natural number below `2 ^ 29`. -/
def compressed (n : Nat) : Result Bytes :=
  match Compressed.width? n with
  | some w => .ok (w.write n)
  | none => .error (.malformed (.compressedTooLarge n))

/-- An integer from `-2 ^ 28` on and below `2 ^ 28`. -/
def compressedInt (n : Int) : Result Bytes :=
  match Compressed.signedWidth? n with
  | some w => .ok (w.write (w.rotate n))
  | none => .error (.malformed (.compressedOutOfRange n))

namespace Reader

/-- A payload together with its width; the width need not be the narrowest one. -/
def payload : Reader (Compressed.Width × Nat) := do
  let first ← byte
  if first < 0x80 then return (.one, first.toNat)
  else if first < 0xC0 then
    let second ← byte
    return (.two, first.toNat % 2 ^ 6 * 2 ^ 8 + second.toNat)
  else if first < 0xE0 then
    let b ← byte
    let c ← byte
    let d ← byte
    return (.four, first.toNat % 2 ^ 5 * 2 ^ 24 + b.toNat * 2 ^ 16 + c.toNat * 2 ^ 8 + d.toNat)
  else malformed (.compressedLead first)

def compressed : Reader Nat := do return (← payload).2

def compressedInt : Reader Int := do
  let (width, n) ← payload
  return width.unrotate n

end Reader

end CilWeaver
