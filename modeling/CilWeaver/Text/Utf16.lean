import CilWeaver.Numbers

/-!
UTF-16 over lists of code units: characters beyond the first plane take a surrogate pair.
-/

namespace CilWeaver.Utf16

def encodeChar (c : Char) : List UInt16 :=
  if c.toNat < 0x10000 then [UInt16.ofNat c.toNat]
  else
    [UInt16.ofNat (0xD800 + (c.toNat - 0x10000) / 0x400),
     UInt16.ofNat (0xDC00 + (c.toNat - 0x10000) % 0x400)]

def encode (text : List Char) : List UInt16 := text.flatMap encodeChar

def isLead (unit : UInt16) : Bool := 0xD800 ≤ unit && unit < 0xDC00

def isTrail (unit : UInt16) : Bool := 0xDC00 ≤ unit && unit < 0xE000

/-- Refuses a surrogate that is not part of a pair. -/
def decode? : List UInt16 → Option (List Char)
  | [] => some []
  | a :: rest =>
    if isLead a then
      match rest with
      | [] => none
      | b :: rest =>
        if isTrail b then
          (decode? rest).map
            (Char.ofNat (0x10000 + (a.toNat - 0xD800) * 0x400 + (b.toNat - 0xDC00)) :: ·)
        else none
    else if isTrail a then none
    else (decode? rest).map (Char.ofNat a.toNat :: ·)

end CilWeaver.Utf16
