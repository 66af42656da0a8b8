import CilWeaver.Numbers

/-!
UTF-8 over byte lists. Decoding refuses an ill-formed sequence and says where it starts and how
many of its bytes could have begun a character.
-/

namespace CilWeaver

/-- Raw data, first byte first. -/
abbrev Bytes := List UInt8

namespace Utf8

/-- The place of an ill-formed sequence. `length` is missing when the text ends inside a
    character that is well formed so far. -/
structure Fault where
  index : Nat
  length : Option Nat
deriving DecidableEq, Repr

def encode (text : List Char) : Bytes := text.flatMap String.utf8EncodeChar

/-- The bytes that continue a character. -/
def continues (b : UInt8) : Bool := 0x80 ≤ b && b ≤ 0xBF

/-- The second bytes that may follow the lead byte of a three byte character: no overlong form
    and no surrogate. -/
def continuesThree (lead b : UInt8) : Bool :=
  if lead = 0xE0 then 0xA0 ≤ b && b ≤ 0xBF
  else if lead = 0xED then 0x80 ≤ b && b ≤ 0x9F
  else continues b

/-- The second bytes that may follow the lead byte of a four byte character: no overlong form and
    nothing beyond the last code point. -/
def continuesFour (lead b : UInt8) : Bool :=
  if lead = 0xF0 then 0x90 ≤ b && b ≤ 0xBF
  else if lead = 0xF4 then 0x80 ≤ b && b ≤ 0x8F
  else continues b

/-- The character whose payload bits, six to a byte, are those of the given bytes. -/
def assemble (lead : Nat) (rest : Bytes) : Char :=
  Char.ofNat (rest.foldl (fun n b => 64 * n + b.toNat % 64) lead)

/-- Decodes from byte position `index` on; `done` holds the characters so far, last one first. -/
def decodeFrom (index : Nat) (done : List Char) : Bytes → Except Fault (List Char)
  | [] => .ok done.reverse
  | a :: rest =>
    if a < 0x80 then decodeFrom (index + 1) (Char.ofNat a.toNat :: done) rest
    else if 0xC2 ≤ a ∧ a ≤ 0xDF then
      match rest with
      | [] => .error ⟨index, none⟩
      | b :: rest =>
        if !continues b then .error ⟨index, some 1⟩
        else decodeFrom (index + 2) (assemble (a.toNat % 32) [b] :: done) rest
    else if 0xE0 ≤ a ∧ a ≤ 0xEF then
      match rest with
      | [] => .error ⟨index, none⟩
      | b :: rest =>
        if !continuesThree a b then .error ⟨index, some 1⟩
        else match rest with
          | [] => .error ⟨index, none⟩
          | c :: rest =>
            if !continues c then .error ⟨index, some 2⟩
            else decodeFrom (index + 3) (assemble (a.toNat % 16) [b, c] :: done) rest
    else if 0xF0 ≤ a ∧ a ≤ 0xF4 then
      match rest with
      | [] => .error ⟨index, none⟩
      | b :: rest =>
        if !continuesFour a b then .error ⟨index, some 1⟩
        else match rest with
          | [] => .error ⟨index, none⟩
          | c :: rest =>
            if !continues c then .error ⟨index, some 2⟩
            else match rest with
              | [] => .error ⟨index, none⟩
              | d :: rest =>
                if !continues d then .error ⟨index, some 3⟩
                else decodeFrom (index + 4) (assemble (a.toNat % 8) [b, c, d] :: done) rest
    else .error ⟨index, some 1⟩

def decode (bytes : Bytes) : Except Fault (List Char) := decodeFrom 0 [] bytes

def decode? (bytes : Bytes) : Option (List Char) := (decode bytes).toOption

end Utf8

/-- The bytes of a text in UTF-8. -/
def utf8Bytes (text : String) : Bytes := Utf8.encode text.toList

end CilWeaver
