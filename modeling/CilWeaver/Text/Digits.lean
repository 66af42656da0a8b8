import CilWeaver.Numbers

/-!
Digit texts: decimal and hexadecimal numbers, plain or padded with zeros to a least width.
-/

namespace CilWeaver.Text

/-- Fills up on the left to at least `width` characters; a longer text stays as it is. -/
def padLeft (width : Nat) (fill : Char) (text : List Char) : List Char :=
  List.replicate (width - text.length) fill ++ text

theorem length_padLeft (width : Nat) (fill : Char) (text : List Char) :
    (padLeft width fill text).length = max width text.length := by
  simp only [padLeft, List.length_append, List.length_replicate]
  omega

/-- Decimal digits, with leading zeros up to `width`. -/
def decimal (n : Nat) (width : Nat := 0) : String :=
  String.ofList (padLeft width '0' (Nat.toDigits 10 n))

/-- Lower case hexadecimal digits, with leading zeros up to `width`. -/
def hex (n : Nat) (width : Nat := 0) : String :=
  String.ofList (padLeft width '0' (Nat.toDigits 16 n))

/-- Upper case hexadecimal digits, with leading zeros up to `width`. -/
def hexUpper (n : Nat) (width : Nat := 0) : String :=
  String.ofList ((padLeft width '0' (Nat.toDigits 16 n)).map Char.toUpper)

/-- A decimal number with a minus sign in front when it is negative. -/
def integer (n : Int) : String :=
  if n < 0 then "-" ++ decimal n.natAbs else decimal n.natAbs

/-- The value of one hexadecimal digit of either case. -/
def hexDigit? (c : Char) : Option Nat :=
  if '0' ≤ c ∧ c ≤ '9' then some (c.toNat - '0'.toNat)
  else if 'a' ≤ c ∧ c ≤ 'f' then some (c.toNat - 'a'.toNat + 10)
  else if 'A' ≤ c ∧ c ≤ 'F' then some (c.toNat - 'A'.toNat + 10)
  else none

/-- Reads hexadecimal digits of either case, most significant first. -/
def hexValue? (digits : List Char) : Option Nat :=
  digits.foldlM (fun n c => (hexDigit? c).map (16 * n + ·)) 0

end CilWeaver.Text
