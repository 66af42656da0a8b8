import CilWeaver.Bytes.Compressed
import CilWeaver.Proofs.Reads

/-!
Compressed integers can be read back, with and without a sign. A reader takes a number in any of the widths that hold
it; the writer takes the narrowest one, so that what is written again needs no more bytes than what was read.
-/

namespace CilWeaver

namespace Outcome

/-- What is written needs no more bytes than `size`. -/
def Within (written : Result Bytes) (size : Nat) : Prop := ∃ bytes, written = .ok bytes ∧ bytes.length ≤ size

variable {x y : Result Bytes} {m n : Nat}

theorem Within.append (first : Within x m) (second : Within y n) : Within (do return (← x) ++ (← y)) (m + n) := by
  rcases first with ⟨front, rfl, short⟩
  rcases second with ⟨back, rfl, short'⟩
  exact ⟨front ++ back, rfl, by rw [List.length_append]; omega⟩

theorem Within.mono (written : Within x m) (room : m ≤ n) : Within x n := by
  rcases written with ⟨bytes, same, short⟩
  exact ⟨bytes, same, Nat.le_trans short room⟩

end Outcome

namespace Compressed

theorem width?_bound {n : Nat} {w : Width} (h : width? n = some w) : n < 2 ^ w.bits := by
  unfold width? at h
  split at h
  · cases h
    assumption
  · split at h
    · cases h
      assumption
    · split at h
      · cases h
        assumption
      · cases h

theorem signedWidth?_range {n : Int} {w : Width} (h : signedWidth? n = some w) :
    -2 ^ (w.bits - 1) ≤ n ∧ n < 2 ^ (w.bits - 1) := by
  unfold signedWidth? at h
  split at h
  · cases h
    assumption
  · split at h
    · cases h
      assumption
    · split at h
      · cases h
        assumption
      · cases h

theorem rotate_lt {n : Int} {w : Width} (h : signedWidth? n = some w) : w.rotate n < 2 ^ w.bits := by
  have range := signedWidth?_range h
  unfold Width.rotate
  cases w <;> simp only [Width.bits] at range ⊢ <;> split <;> omega

/-- The sign comes back from the lowest bit. -/
theorem unrotate_rotate {n : Int} {w : Width} (h : signedWidth? n = some w) :
    w.unrotate (w.rotate n) = n := by
  have range := signedWidth?_range h
  unfold Width.rotate Width.unrotate
  by_cases negative : n < 0
  · rw [if_pos negative, if_neg (by omega)]
    have half : (2 * (n + 2 ^ (w.bits - 1)).toNat + 1) / 2 = (n + 2 ^ (w.bits - 1)).toNat := by omega
    rw [half]
    simp only [Int.ofNat_eq_natCast]
    rw [Int.toNat_of_nonneg (by omega)]
    omega
  · rw [if_neg negative, if_pos (by omega)]
    have half : 2 * n.toNat / 2 = n.toNat := by omega
    rw [half]
    simp only [Int.ofNat_eq_natCast]
    omega

theorem write_ne_nil (w : Width) (payload : Nat) : w.write payload ≠ [] := by
  cases w <;> simp [Width.write]

variable {bytes : Bytes}

/-- The bytes hold a natural number, not always in the narrowest width. -/
def Holds (bytes : Bytes) (n : Nat) : Prop := ∃ w : Width, n < 2 ^ w.bits ∧ bytes = w.write n

def HoldsInt (bytes : Bytes) (n : Int) : Prop :=
  ∃ (w : Width) (payload : Nat), payload < 2 ^ w.bits ∧ w.unrotate payload = n ∧ bytes = w.write payload

theorem Holds.ne_nil {n : Nat} (h : Holds bytes n) : bytes ≠ [] := by
  rcases h with ⟨w, -, rfl⟩
  exact write_ne_nil w n

theorem HoldsInt.ne_nil {n : Int} (h : HoldsInt bytes n) : bytes ≠ [] := by
  rcases h with ⟨w, payload, -, -, rfl⟩
  exact write_ne_nil w payload

theorem Holds.lt {n : Nat} (h : Holds bytes n) : n < 2 ^ 29 := by
  rcases h with ⟨w, bound, -⟩
  cases w <;> simp only [Width.bits] at bound <;> omega

/-- A column of four bytes takes the number. -/
theorem Holds.toNat_ofNat {n : Nat} (h : Holds bytes n) : (UInt32.ofNat n).toNat = n := by
  have small := h.lt
  rw [UInt32.toNat_ofNat', Nat.mod_eq_of_lt (by omega)]

theorem Holds.ofNat {n : Nat} (h : Holds bytes n) : Holds bytes (UInt32.ofNat n).toNat := by
  rw [h.toNat_ofNat]
  exact h

theorem unrotate_range {w : Width} {payload : Nat} (bound : payload < 2 ^ w.bits) :
    -2 ^ (w.bits - 1) ≤ w.unrotate payload ∧ w.unrotate payload < 2 ^ (w.bits - 1) := by
  unfold Width.unrotate
  rw [Int.ofNat_eq_natCast]
  cases w <;> simp only [Width.bits] at bound ⊢ <;> split <;> omega

theorem HoldsInt.range {n : Int} (h : HoldsInt bytes n) : -2 ^ 28 ≤ n ∧ n < 2 ^ 28 := by
  rcases h with ⟨w, payload, bound, rfl, -⟩
  have range := unrotate_range bound
  cases w <;> simp only [Width.bits] at range <;> omega

theorem HoldsInt.ofInt {n : Int} (h : HoldsInt bytes n) : HoldsInt bytes (Int32.ofInt n).toInt := by
  have range := h.range
  rw [Int32.toInt_ofInt_of_le (by omega) (by omega)]
  exact h

/-- A number that takes more than two bytes takes four. -/
theorem Holds.length_eq_four {n : Nat} (h : Holds bytes n) (large : 2 ^ 14 ≤ n) : bytes.length = 4 := by
  rcases h with ⟨w, bound, rfl⟩
  cases w with
  | one => simp only [Width.bits] at bound; omega
  | two => simp only [Width.bits] at bound; omega
  | four => rfl

theorem Holds.within {n : Nat} (h : Holds bytes n) : Outcome.Within (compressed n) bytes.length := by
  rcases h with ⟨w, bound, rfl⟩
  unfold Outcome.Within compressed width?
  cases w with
  | one =>
    change n < 2 ^ 7 at bound
    exact ⟨_, by rw [if_pos bound], Nat.le_refl _⟩
  | two =>
    change n < 2 ^ 14 at bound
    by_cases one : n < 2 ^ 7
    · exact ⟨_, by rw [if_pos one], by simp [Width.write]⟩
    · exact ⟨_, by rw [if_neg one, if_pos bound], Nat.le_refl _⟩
  | four =>
    change n < 2 ^ 29 at bound
    by_cases one : n < 2 ^ 7
    · exact ⟨_, by rw [if_pos one], by simp [Width.write]⟩
    · by_cases two : n < 2 ^ 14
      · exact ⟨_, by rw [if_neg one, if_pos two], by simp [Width.write]⟩
      · exact ⟨_, by rw [if_neg one, if_neg two, if_pos bound], Nat.le_refl _⟩

theorem HoldsInt.within {n : Int} (h : HoldsInt bytes n) : Outcome.Within (compressedInt n) bytes.length := by
  rcases h with ⟨w, payload, bound, rfl, rfl⟩
  have range := unrotate_range bound
  generalize w.unrotate payload = n at range
  unfold Outcome.Within compressedInt signedWidth?
  cases w with
  | one =>
    change -2 ^ 6 ≤ n ∧ n < 2 ^ 6 at range
    exact ⟨_, by rw [if_pos range], by simp [Width.write]⟩
  | two =>
    change -2 ^ 13 ≤ n ∧ n < 2 ^ 13 at range
    by_cases one : -2 ^ 6 ≤ n ∧ n < 2 ^ 6
    · exact ⟨_, by rw [if_pos one], by simp [Width.write]⟩
    · exact ⟨_, by rw [if_neg one, if_pos range], by simp [Width.write]⟩
  | four =>
    change -2 ^ 28 ≤ n ∧ n < 2 ^ 28 at range
    by_cases one : -2 ^ 6 ≤ n ∧ n < 2 ^ 6
    · exact ⟨_, by rw [if_pos one], by simp [Width.write]⟩
    · by_cases two : -2 ^ 13 ≤ n ∧ n < 2 ^ 13
      · exact ⟨_, by rw [if_neg one, if_pos two], by simp [Width.write]⟩
      · exact ⟨_, by rw [if_neg one, if_neg two, if_pos range], by simp [Width.write]⟩

theorem holds_of_compressed {n : Nat} (h : compressed n = .ok bytes) : Holds bytes n := by
  unfold compressed at h
  split at h
  · rename_i w width
    cases h
    exact ⟨w, width?_bound width, rfl⟩
  · cases h

theorem holdsInt_of_compressedInt {n : Int} (h : compressedInt n = .ok bytes) : HoldsInt bytes n := by
  unfold compressedInt at h
  split at h
  · rename_i w width
    cases h
    exact ⟨w, w.rotate n, rotate_lt width, unrotate_rotate width, rfl⟩
  · cases h

end Compressed

namespace Reader

open Compressed

theorem not_lt_of_toNat {a b : UInt8} (h : b.toNat ≤ a.toNat) : ¬ a < b := by
  rw [UInt8.lt_iff_toNat_lt]
  omega

theorem reads_payload_one {n : Nat} (bound : n < 2 ^ 7) (position : Nat) :
    Reads payload position (Width.one.write n) (.one, n) := by
  have value : (UInt8.ofNat n).toNat = n := by
    rw [UInt8.toNat_ofNat']
    omega
  have low : UInt8.ofNat n < 0x80 := by
    rw [UInt8.lt_iff_toNat_lt, value]
    exact bound
  refine reads_byte_bind ?_
  rw [if_pos low, value]
  exact reads_pure _ _

theorem reads_payload_two {n : Nat} (bound : n < 2 ^ 14) (position : Nat) :
    Reads payload position (Width.two.write n) (.two, n) := by
  have first : (UInt8.ofNat (0x80 + n / 2 ^ 8)).toNat = 0x80 + n / 2 ^ 8 := by
    rw [UInt8.toNat_ofNat']
    omega
  have second : (UInt8.ofNat n).toNat = n % 256 := UInt8.toNat_ofNat'
  have high : ¬ UInt8.ofNat (0x80 + n / 2 ^ 8) < 0x80 := by
    apply not_lt_of_toNat
    rw [first]
    exact Nat.le_add_right _ _
  have low : UInt8.ofNat (0x80 + n / 2 ^ 8) < 0xC0 := by
    rw [UInt8.lt_iff_toNat_lt, first]
    change 0x80 + n / 2 ^ 8 < 0xC0
    omega
  have number : (0x80 + n / 2 ^ 8) % 2 ^ 6 * 2 ^ 8 + n % 256 = n := by omega
  refine reads_byte_bind ?_
  rw [if_neg high, if_pos low]
  have last := (reads_byte (position + 1) (UInt8.ofNat n)).map fun second =>
    (Width.two, (0x80 + n / 2 ^ 8) % 2 ^ 6 * 2 ^ 8 + second.toNat)
  rw [second, number] at last
  rw [first]
  exact last

theorem reads_payload_four {n : Nat} (bound : n < 2 ^ 29) (position : Nat) :
    Reads payload position (Width.four.write n) (.four, n) := by
  have first : (UInt8.ofNat (0xC0 + n / 2 ^ 24)).toNat = 0xC0 + n / 2 ^ 24 := by
    rw [UInt8.toNat_ofNat']
    omega
  have high : ¬ UInt8.ofNat (0xC0 + n / 2 ^ 24) < 0xC0 := by
    apply not_lt_of_toNat
    rw [first]
    exact Nat.le_add_right _ _
  have higher : ¬ UInt8.ofNat (0xC0 + n / 2 ^ 24) < 0x80 := by
    apply not_lt_of_toNat
    rw [first]
    change 0x80 ≤ 0xC0 + n / 2 ^ 24
    omega
  have low : UInt8.ofNat (0xC0 + n / 2 ^ 24) < 0xE0 := by
    rw [UInt8.lt_iff_toNat_lt, first]
    change 0xC0 + n / 2 ^ 24 < 0xE0
    omega
  have number : (0xC0 + n / 2 ^ 24) % 2 ^ 5 * 2 ^ 24 + (n / 2 ^ 16 % 256) * 2 ^ 16
      + (n / 2 ^ 8 % 256) * 2 ^ 8 + n % 256 = n := by omega
  refine reads_byte_bind ?_
  rw [if_neg higher, if_neg high, if_pos low]
  refine reads_byte_bind (reads_byte_bind ?_)
  have last := (reads_byte (position + 1 + 1 + 1) (UInt8.ofNat n)).map fun d =>
    (Width.four, (0xC0 + n / 2 ^ 24) % 2 ^ 5 * 2 ^ 24 + (n / 2 ^ 16 % 256) * 2 ^ 16
      + (n / 2 ^ 8 % 256) * 2 ^ 8 + d.toNat)
  rw [UInt8.toNat_ofNat', number] at last
  rw [first, UInt8.toNat_ofNat', UInt8.toNat_ofNat']
  exact last

theorem reads_payload {w : Width} {n : Nat} (bound : n < 2 ^ w.bits) (position : Nat) :
    Reads payload position (w.write n) (w, n) := by
  cases w with
  | one => exact reads_payload_one bound position
  | two => exact reads_payload_two bound position
  | four => exact reads_payload_four bound position

theorem reads_of_holds {bytes : Bytes} {n : Nat} (h : Holds bytes n) (position : Nat) :
    Reads Reader.compressed position bytes n := by
  rcases h with ⟨w, bound, rfl⟩
  exact (reads_payload bound position).map Prod.snd

theorem reads_of_holdsInt {bytes : Bytes} {n : Int} (h : HoldsInt bytes n) (position : Nat) :
    Reads Reader.compressedInt position bytes n := by
  rcases h with ⟨w, payload, bound, rfl, rfl⟩
  exact (reads_payload bound position).map fun found => found.1.unrotate found.2

/-- A compressed number is read back. -/
theorem reads_compressed {n : Nat} {bytes : Bytes} (h : CilWeaver.compressed n = .ok bytes)
    (position : Nat) : Reads Reader.compressed position bytes n :=
  reads_of_holds (holds_of_compressed h) position

/-- A compressed integer is read back. -/
theorem reads_compressedInt {n : Int} {bytes : Bytes} (h : CilWeaver.compressedInt n = .ok bytes)
    (position : Nat) : Reads Reader.compressedInt position bytes n :=
  reads_of_holdsInt (holdsInt_of_compressedInt h) position

end Reader

theorem compressed_ne_nil {n : Nat} {bytes : Bytes} (h : compressed n = .ok bytes) : bytes ≠ [] := by
  unfold compressed at h
  split at h
  · cases h
    exact Compressed.write_ne_nil _ _
  · cases h

theorem exists_compressed {n : Nat} (small : n < 2 ^ 29) : ∃ bytes, compressed n = .ok bytes := by
  have held : Compressed.Holds (Compressed.Width.four.write n) n := ⟨.four, small, rfl⟩
  rcases held.within with ⟨bytes, written, -⟩
  exact ⟨bytes, written⟩

theorem exists_compressedInt {n : Int} (range : -2 ^ 28 ≤ n ∧ n < 2 ^ 28) : ∃ bytes, compressedInt n = .ok bytes := by
  unfold compressedInt Compressed.signedWidth?
  by_cases one : -2 ^ 6 ≤ n ∧ n < 2 ^ 6
  · exact ⟨_, by rw [if_pos one]⟩
  · by_cases two : -2 ^ 13 ≤ n ∧ n < 2 ^ 13
    · exact ⟨_, by rw [if_neg one, if_pos two]⟩
    · exact ⟨_, by rw [if_neg one, if_neg two, if_pos range]⟩

theorem compressed_of_le {n : Nat} (large : 2 ^ 29 ≤ n) : compressed n = .error (.malformed (.compressedTooLarge n)) := by
  unfold compressed Compressed.width?
  rw [if_neg (by omega), if_neg (by omega), if_neg (by omega)]

theorem compressedInt_of_outside {n : Int} (outside : ¬ (-2 ^ 28 ≤ n ∧ n < 2 ^ 28)) :
    compressedInt n = .error (.malformed (.compressedOutOfRange n)) := by
  unfold compressedInt Compressed.signedWidth?
  rw [if_neg (by omega), if_neg (by omega), if_neg outside]

theorem length_compressed_le {n : Nat} {bytes : Bytes} (h : compressed n = .ok bytes) : bytes.length ≤ 4 := by
  unfold compressed at h
  split at h
  · rename_i w width
    cases h
    cases w <;> simp [Compressed.Width.write]
  · cases h

theorem length_compressedInt_le {n : Int} {bytes : Bytes} (h : compressedInt n = .ok bytes) : bytes.length ≤ 4 := by
  unfold compressedInt at h
  split at h
  · rename_i w width
    cases h
    cases w <;> simp [Compressed.Width.write]
  · cases h

end CilWeaver
