import CilWeaver.Text.Utf8

/-!
Numbers as bytes, least significant byte first, and alignment. Main statements: reading the bytes of
a number gives the number, and writing the number of some bytes gives the bytes.
-/

namespace CilWeaver

def leNat : Bytes → Nat
  | [] => 0
  | b :: rest => b.toNat + 256 * leNat rest

/-- The lowest `count` bytes of a number. -/
def leBytes : (count : Nat) → Nat → Bytes
  | 0, _ => []
  | count + 1, n => UInt8.ofNat n :: leBytes count (n / 256)

@[simp] theorem length_leBytes (count n : Nat) : (leBytes count n).length = count := by
  induction count generalizing n with
  | zero => rfl
  | succ count ih => simp [leBytes, ih]

theorem leNat_lt (bytes : Bytes) : leNat bytes < 256 ^ bytes.length := by
  induction bytes with
  | nil => decide
  | cons b rest ih =>
    have := b.toNat_lt
    rw [leNat, List.length_cons, Nat.pow_succ]
    omega

theorem leNat_leBytes (count n : Nat) : leNat (leBytes count n) = n % 256 ^ count := by
  induction count generalizing n with
  | zero => simp [leBytes, leNat, Nat.mod_one]
  | succ count ih =>
    rw [leBytes, leNat, ih, Nat.pow_succ, Nat.mul_comm (256 ^ count), Nat.mod_mul,
      UInt8.toNat_ofNat']

theorem leBytes_leNat (bytes : Bytes) : leBytes bytes.length (leNat bytes) = bytes := by
  induction bytes with
  | nil => rfl
  | cons b rest ih =>
    have := b.toNat_lt
    have low : UInt8.ofNat (b.toNat + 256 * leNat rest) = b := by
      apply UInt8.toNat.inj
      rw [UInt8.toNat_ofNat']
      omega
    have high : (b.toNat + 256 * leNat rest) / 256 = leNat rest := by omega
    rw [List.length_cons, leNat, leBytes, low, high, ih]

/-- The lowest bytes of an integer in two's complement. -/
def leIntBytes (count : Nat) (n : Int) : Bytes := leBytes count (n % 256 ^ count).toNat

@[simp] theorem length_leIntBytes (count : Nat) (n : Int) : (leIntBytes count n).length = count :=
  length_leBytes _ _

def u16Bytes (n : UInt16) : Bytes := leBytes 2 n.toNat

def u32Bytes (n : UInt32) : Bytes := leBytes 4 n.toNat

def u64Bytes (n : UInt64) : Bytes := leBytes 8 n.toNat

def zeros (count : Nat) : Bytes := List.replicate count 0

/-- The number of bytes missing up to the next multiple of `alignment`. -/
def padding (alignment size : Nat) : Nat := (alignment - size % alignment) % alignment

def padTo (alignment : Nat) (bytes : Bytes) : Bytes :=
  bytes ++ zeros (padding alignment bytes.length)

theorem padding_four (size : Nat) : (size + padding 4 size) % 4 = 0 := by
  unfold padding
  omega

theorem length_padTo (alignment : Nat) (bytes : Bytes) :
    (padTo alignment bytes).length = bytes.length + padding alignment bytes.length := by
  simp [padTo, zeros]

end CilWeaver
