import CilWeaver.Text.Digits
import CilWeaver.Decimal.Shortest

/-!
Texts of binary floating point numbers given by their bits: the plain form is always positional,
the detailed form always shows that the number is not an integer literal.
-/

namespace CilWeaver.Decimal

/-- Widths of the fraction and exponent fields; the sign is one bit above them. -/
structure FloatFormat where
  fraction : Nat
  exponent : Nat

def single : FloatFormat := ⟨23, 8⟩

def double : FloatFormat := ⟨52, 11⟩

inductive FloatValue where
  | nan
  | infinite (negative : Bool)
  | zero (negative : Bool)
  | finite (negative : Bool) (magnitude : Decimal)

namespace FloatFormat

def bias (f : FloatFormat) : Nat := 2 ^ (f.exponent - 1) - 1

/-- Reads a bit pattern. The numbers at a power of two have their lower neighbour at half the
    distance; the others lie evenly between their neighbours. -/
def read (f : FloatFormat) (bits : Nat) : FloatValue :=
  let fraction := bits % 2 ^ f.fraction
  let biased := bits / 2 ^ f.fraction % 2 ^ f.exponent
  let negative := bits / 2 ^ (f.fraction + f.exponent) % 2 = 1
  let least : Int := 1 - f.bias - f.fraction
  if biased = 2 ^ f.exponent - 1 then
    if fraction = 0 then .infinite negative else .nan
  else if biased = 0 then
    if fraction = 0 then .zero negative else .finite negative (shortest fraction least false)
  else
    .finite negative
      (shortest (2 ^ f.fraction + fraction) (least + (biased - 1)) (fraction = 0))

end FloatFormat

def digitText (d : Decimal) : List Char := Nat.toDigits 10 d.digits

/-- The number of digits in front of the point; zero or less when the number is below one tenth. -/
def pointPosition (d : Decimal) : Int := d.digitText.length + d.exponent

/-- All digits and the point, without an exponent. -/
def positional (d : Decimal) : List Char :=
  let point := d.pointPosition
  if point ≤ 0 then '0' :: '.' :: List.replicate (-point).toNat '0' ++ d.digitText
  else if 0 ≤ d.exponent then d.digitText ++ List.replicate d.exponent.toNat '0'
  else d.digitText.take point.toNat ++ '.' :: d.digitText.drop point.toNat

/-- One digit in front of the point, and the exponent behind the mark. -/
def scientific (d : Decimal) : List Char :=
  let mantissa := match d.digitText with
    | [] => []
    | [c] => [c]
    | c :: rest => c :: '.' :: rest
  mantissa ++ 'e' :: (Text.integer (d.pointPosition - 1)).toList

def signed (negative : Bool) (text : List Char) : String :=
  String.ofList (if negative then '-' :: text else text)

/-- Positional digits only; an integer has no point. -/
def FloatValue.plain : FloatValue → String
  | .nan => "NaN"
  | .infinite negative => signed negative ['i', 'n', 'f']
  | .zero negative => signed negative ['0']
  | .finite negative d => signed negative d.positional

/-- Numbers from `10 ^ 16` on and below `10 ^ -4` carry an exponent; any other integer ends in
    `.0`. -/
def FloatValue.detailed : FloatValue → String
  | .nan => "NaN"
  | .infinite negative => signed negative ['i', 'n', 'f']
  | .zero negative => signed negative ['0', '.', '0']
  | .finite negative d =>
    if 16 < d.pointPosition ∨ d.pointPosition < -3 then signed negative d.scientific
    else if 0 ≤ d.exponent then signed negative (d.positional ++ ['.', '0'])
    else signed negative d.positional

end CilWeaver.Decimal
