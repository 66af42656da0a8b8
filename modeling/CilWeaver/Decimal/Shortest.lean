import CilWeaver.Numbers

/-!
The shortest decimal that a binary floating point number can be read back from, in exact
arithmetic on natural numbers.
-/

namespace CilWeaver

/-- The value `digits * 10 ^ exponent`. -/
structure Decimal where
  digits : Nat
  exponent : Int
deriving DecidableEq, Repr

namespace Decimal

/-- A positive rational number together with the distances to the nearest reals that round to
    another number, all over the denominator `unit`. The ends of the interval count as inside iff
    `closed`. -/
structure Interval where
  value : Nat
  below : Nat
  above : Nat
  unit : Nat
  closed : Bool

namespace Interval

/-- The interval of `mantissa * 2 ^ exponent`, whose next smaller number is only half as far away
    when `narrow`. A number with an even mantissa owns the ends of its interval. -/
def ofBinary (mantissa : Nat) (exponent : Int) (narrow : Bool) : Interval :=
  let scale := 2 ^ exponent.toNat
  { value := 4 * mantissa * scale
    below := (if narrow then 1 else 2) * scale
    above := 2 * scale
    unit := 4 * 2 ^ (-exponent).toNat
    closed := mantissa % 2 = 0 }

/-- Whether `n * 10 ^ k` lies in the interval. -/
def contains (i : Interval) (n : Nat) (k : Int) : Bool :=
  let point := n * 10 ^ k.toNat * i.unit
  let scale := 10 ^ (-k).toNat
  if i.closed then (i.value - i.below) * scale ≤ point && point ≤ (i.value + i.above) * scale
  else (i.value - i.below) * scale < point && point < (i.value + i.above) * scale

/-- The better of the two multiples of `10 ^ k` around the value, if one lies in the interval: the
    nearer one, and the larger one when they are equally far away. -/
def nearest? (i : Interval) (k : Int) : Option Decimal :=
  let numerator := i.value * 10 ^ (-k).toNat
  let denominator := i.unit * 10 ^ k.toNat
  let lower := numerator / denominator
  let rest := numerator % denominator
  let low := i.contains lower k
  let high := i.contains (lower + 1) k
  if low && (!high || 2 * rest < denominator) then some ⟨lower, k⟩
  else if high then some ⟨lower + 1, k⟩
  else none

/-- Tries ever finer powers of ten, `tries` of them from `10 ^ k` on. -/
def search (i : Interval) : (tries : Nat) → (k : Int) → Decimal
  | 0, k => ⟨0, k⟩
  | tries + 1, k => (i.nearest? k).getD (i.search tries (k - 1))

end Interval

/-- The fewest digits that round to `mantissa * 2 ^ exponent`, and of those the nearest. The first
    power of ten tried exceeds the value; twenty finer ones reach past the seventeen digits that
    tell all numbers of 53 bits apart. -/
def shortest (mantissa : Nat) (exponent : Int) (narrow : Bool) : Decimal :=
  let top := ((Int.ofNat (Nat.log2 mantissa) + 1 + exponent) * 30103) / 100000 + 2
  (Interval.ofBinary mantissa exponent narrow).search 22 top

end Decimal

end CilWeaver
