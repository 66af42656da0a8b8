import CilWeaver.Bytes.LittleEndian
import CilWeaver.Text.Digits

/-!
Globally unique identifiers: sixteen bytes, and a text of five groups of digits.
-/

namespace CilWeaver

/-- The bytes in the order of an image. -/
structure Guid where
  bytes : Bytes
  length_eq : bytes.length = 16
deriving DecidableEq

namespace Guid

def nil : Guid := ⟨zeros 16, rfl⟩

instance : Inhabited Guid := ⟨nil⟩

def isNil (g : Guid) : Bool := g == nil

def ofBytes? (bytes : Bytes) : Option Guid :=
  if h : bytes.length = 16 then some ⟨bytes, h⟩ else none

/-- The first three groups of the text have their most significant byte first, so their bytes are
    reversed in an image. -/
def reorder : Bytes → Bytes
  | a :: b :: c :: d :: e :: f :: g :: h :: rest => d :: c :: b :: a :: f :: e :: h :: g :: rest
  | bytes => bytes

def text (g : Guid) : String :=
  let digits := (reorder g.bytes).flatMap fun b => (Text.hex b.toNat 2).toList
  let group (start size : Nat) : String := String.ofList ((digits.drop start).take size)
  "-".intercalate [group 0 8, group 8 4, group 12 4, group 16 4, group 20 12]

/-- The bytes that pairs of digits stand for. -/
def pairs? : List Char → Option Bytes
  | [] => some []
  | [_] => none
  | a :: b :: rest => do
    return UInt8.ofNat (16 * (← Text.hexDigit? a) + (← Text.hexDigit? b)) :: (← pairs? rest)

def ofText? (text : String) : Option Guid := do
  ofBytes? (reorder (← pairs? (text.toList.filter (· != '-'))))

end Guid

end CilWeaver
