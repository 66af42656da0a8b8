import CilWeaver.Proofs.Spans

/-!
The bits of compressed integers. A writer that puts shifted and masked words behind a buffer, byte by byte, writes what
`compressed` and `compressedInt` answer, and adds nothing to the buffer when it refuses a number. So both writers are
exact: what they write is read back, and what is read in any width is written again in no more bytes.
-/

namespace CilWeaver

namespace Compressed

open Reader Step

/-! Writing by bits -/

/-- Puts a byte behind a buffer. -/
def push (b : UInt8) : EStateM Error Bytes Unit := modify (· ++ [b])

/-- Puts a payload behind a buffer; the highest bits of its first byte tell the width. -/
def pushPayload (w : Width) (payload : UInt32) : EStateM Error Bytes Unit :=
  match w with
  | .one => push payload.toUInt8
  | .two => do
    push ((0x80 : UInt8) ||| (payload >>> 8).toUInt8)
    push payload.toUInt8
  | .four => do
    push ((0xC0 : UInt8) ||| (payload >>> 24).toUInt8)
    push (payload >>> 16).toUInt8
    push (payload >>> 8).toUInt8
    push payload.toUInt8

/-- Writes a number in the narrowest width. -/
def pushUInt (v : UInt32) : EStateM Error Bytes Unit :=
  if v ≤ 0x7F then pushPayload .one v
  else if v ≤ 0x3FFF then pushPayload .two v
  else if v ≤ 0x1FFFFFFF then pushPayload .four v
  else throw (.malformed (.compressedTooLarge v.toNat))

/-- The lowest bits of a word, as many as the width has. -/
def Width.mask : Width → UInt32
  | one => 0x7F
  | two => 0x3FFF
  | four => 0x1FFFFFFF

/-- Rotates the lowest bits of a word to the left, so that the sign comes to the lowest place. -/
def Width.rotateBits (w : Width) (v : UInt32) : UInt32 :=
  let raw := v &&& w.mask
  ((raw <<< 1) ||| (raw >>> UInt32.ofNat (w.bits - 1))) &&& w.mask

/-- Writes an integer in the narrowest width that holds its magnitude and its sign. -/
def pushInt (v : Int32) : EStateM Error Bytes Unit :=
  if -0x40 ≤ v ∧ v ≤ 0x3F then pushPayload .one (Width.one.rotateBits v.toUInt32)
  else if -0x2000 ≤ v ∧ v ≤ 0x1FFF then pushPayload .two (Width.two.rotateBits v.toUInt32)
  else if -0x10000000 ≤ v ∧ v ≤ 0x0FFFFFFF then pushPayload .four (Width.four.rotateBits v.toUInt32)
  else throw (.malformed (.compressedOutOfRange v.toInt))

/-- What the buffer holds after a number was written: the bytes of the number behind the old ones, or the old ones. -/
def appended (written : Result Bytes) (buffer : Bytes) : EStateM.Result Error Bytes Unit :=
  match written with
  | .ok bytes => .ok () (buffer ++ bytes)
  | .error e => .error e buffer

theorem toUInt8_eq (v : UInt32) : v.toUInt8 = UInt8.ofNat v.toNat := by
  apply UInt8.toNat.inj
  rw [UInt32.toNat_toUInt8, UInt8.toNat_ofNat']

theorem toUInt8_shiftRight (v : UInt32) {count : Nat} (small : count < 32) :
    (v >>> UInt32.ofNat count).toUInt8 = UInt8.ofNat (v.toNat / 2 ^ count) := by
  have amount : (UInt32.ofNat count).toNat % 32 = count := by
    rw [UInt32.toNat_ofNat']
    omega
  rw [toUInt8_eq, UInt32.toNat_shiftRight, amount, Nat.shiftRight_eq_div_pow]

/-- The tag of a width and the payload bits beside it have no bit in common. -/
theorem tag_or (count tag : Nat) {high : Nat} (low : high < 2 ^ count) (byte : 2 ^ count * tag + high < 256) :
    UInt8.ofNat (2 ^ count * tag) ||| UInt8.ofNat high = UInt8.ofNat (2 ^ count * tag + high) := by
  apply UInt8.toNat.inj
  rw [UInt8.toNat_or, UInt8.toNat_ofNat', UInt8.toNat_ofNat', UInt8.toNat_ofNat', Nat.mod_eq_of_lt (by omega),
    Nat.mod_eq_of_lt (by omega), Nat.mod_eq_of_lt byte, Nat.two_pow_add_eq_or_of_lt low]

theorem pushPayload_eq {w : Width} {payload : UInt32} (bound : payload.toNat < 2 ^ w.bits) (buffer : Bytes) :
    pushPayload w payload buffer = .ok () (buffer ++ w.write payload.toNat) := by
  cases w with
  | one =>
    change EStateM.Result.ok () (buffer ++ [payload.toUInt8]) = _
    rw [toUInt8_eq]
    rfl
  | two =>
    change payload.toNat < 2 ^ 14 at bound
    change EStateM.Result.ok () (buffer ++ [(0x80 : UInt8) ||| (payload >>> UInt32.ofNat 8).toUInt8] ++ [payload.toUInt8]) = _
    have high := tag_or 7 1 (show payload.toNat / 2 ^ 8 < 2 ^ 7 by omega) (by omega)
    rw [toUInt8_shiftRight payload (by decide), toUInt8_eq, List.append_assoc]
    exact congrArg (fun b => EStateM.Result.ok () (buffer ++ ([b] ++ [UInt8.ofNat payload.toNat]))) high
  | four =>
    change payload.toNat < 2 ^ 29 at bound
    change EStateM.Result.ok () (buffer ++ [(0xC0 : UInt8) ||| (payload >>> UInt32.ofNat 24).toUInt8] ++
      [(payload >>> UInt32.ofNat 16).toUInt8] ++ [(payload >>> UInt32.ofNat 8).toUInt8] ++ [payload.toUInt8]) = _
    have high := tag_or 6 3 (show payload.toNat / 2 ^ 24 < 2 ^ 6 by omega) (by omega)
    rw [toUInt8_shiftRight payload (by decide), toUInt8_shiftRight payload (by decide),
      toUInt8_shiftRight payload (by decide), toUInt8_eq]
    simp only [List.append_assoc]
    exact congrArg (fun b => EStateM.Result.ok () (buffer ++ ([b] ++ ([UInt8.ofNat (payload.toNat / 2 ^ 16)] ++
      ([UInt8.ofNat (payload.toNat / 2 ^ 8)] ++ [UInt8.ofNat payload.toNat]))))) high

/-- The word of an integer, in two's complement. -/
theorem toNat_toUInt32 (v : Int32) :
    v.toUInt32.toNat = if v.toInt < 0 then (v.toInt + 2 ^ 32).toNat else v.toInt.toNat := by
  have word : v.toInt = if 2 * v.toUInt32.toNat < 2 ^ 32 then (v.toUInt32.toNat : Int)
      else (v.toUInt32.toNat : Int) - (2 ^ 32 : Nat) := BitVec.toInt_eq_toNat_cond v.toBitVec
  have bound := v.toUInt32.toNat_lt
  split at word <;> split <;> omega

theorem toNat_and_mask (w : Width) (v : UInt32) : (v &&& w.mask).toNat = v.toNat % 2 ^ w.bits := by
  have ones : w.mask.toNat = 2 ^ w.bits - 1 := by cases w <;> rfl
  rw [UInt32.toNat_and, ones, Nat.and_two_pow_sub_one_eq_mod]

/-- A rotation as arithmetic: twice the lower bits, and the highest one. -/
theorem toNat_rotateBits (w : Width) (v : UInt32) :
    (w.rotateBits v).toNat =
      (2 * (v.toNat % 2 ^ w.bits) + v.toNat % 2 ^ w.bits / 2 ^ (w.bits - 1)) % 2 ^ w.bits := by
  have raw := toNat_and_mask w v
  have left : ((v &&& w.mask) <<< 1).toNat = 2 * (v.toNat % 2 ^ w.bits) := by
    rw [UInt32.toNat_shiftLeft, raw, show (1 : UInt32).toNat % 32 = 1 from rfl, Nat.shiftLeft_eq]
    cases w <;> simp only [Width.bits] <;> omega
  have right : ((v &&& w.mask) >>> UInt32.ofNat (w.bits - 1)).toNat = v.toNat % 2 ^ w.bits / 2 ^ (w.bits - 1) := by
    have amount : (UInt32.ofNat (w.bits - 1)).toNat % 32 = w.bits - 1 := by cases w <;> rfl
    rw [UInt32.toNat_shiftRight, raw, amount, Nat.shiftRight_eq_div_pow]
  have top : v.toNat % 2 ^ w.bits / 2 ^ (w.bits - 1) < 2 ^ 1 := by
    cases w <;> simp only [Width.bits] <;> omega
  unfold Width.rotateBits
  dsimp only
  rw [toNat_and_mask, UInt32.toNat_or, left, right, ← Nat.two_pow_add_eq_or_of_lt top]

theorem two_mul_half (w : Width) : 2 * 2 ^ (w.bits - 1) = 2 ^ w.bits := by cases w <;> rfl

/-- The rotation moves the highest bit to the lowest place. -/
theorem rotated_eq {raw half : Nat} (bound : raw < 2 * half) :
    (2 * raw + raw / half) % (2 * half) = if raw < half then 2 * raw else 2 * (raw - half) + 1 := by
  split
  · rename_i low
    rw [Nat.div_eq_of_lt low, Nat.add_zero, Nat.mod_eq_of_lt (by omega)]
  · rename_i high
    have top : raw / half = 1 := Nat.div_eq_of_lt_le (by omega) (by omega)
    rw [top, Nat.mod_eq_sub_mod (by omega), Nat.mod_eq_of_lt (by omega)]
    omega

/-- The lowest bits of the word of an integer of the width: negative numbers have the highest one. -/
theorem toNat_toUInt32_mod {w : Width} {v : Int32} (range : -2 ^ (w.bits - 1) ≤ v.toInt ∧ v.toInt < 2 ^ (w.bits - 1)) :
    v.toUInt32.toNat % 2 ^ w.bits = if v.toInt < 0 then (v.toInt + 2 ^ w.bits).toNat else v.toInt.toNat := by
  rw [toNat_toUInt32]
  cases w <;> simp only [Width.bits] at range ⊢ <;> split <;> omega

/-- The rotated bits are those of the integer with its sign in the lowest place. -/
theorem rotateBits_eq {w : Width} {v : Int32} (range : -2 ^ (w.bits - 1) ≤ v.toInt ∧ v.toInt < 2 ^ (w.bits - 1)) :
    (w.rotateBits v.toUInt32).toNat = w.rotate v.toInt := by
  have raw := toNat_toUInt32_mod range
  have double := two_mul_half w
  have bound := Nat.mod_lt v.toUInt32.toNat (Nat.two_pow_pos w.bits)
  rw [toNat_rotateBits, ← double, rotated_eq (double ▸ bound), double, raw]
  unfold Width.rotate
  cases w <;> simp only [Width.bits] at range ⊢ <;> split <;> split <;> omega

/-- The word is compared with the bounds of the widths. -/
theorem pushUInt_eq_width (v : UInt32) :
    pushUInt v = match width? v.toNat with
      | some w => pushPayload w v
      | none => throw (.malformed (.compressedTooLarge v.toNat)) := by
  have one : v ≤ 0x7F ↔ v.toNat < 2 ^ 7 := UInt32.le_iff_toNat_le.trans Nat.lt_succ_iff.symm
  have two : v ≤ 0x3FFF ↔ v.toNat < 2 ^ 14 := UInt32.le_iff_toNat_le.trans Nat.lt_succ_iff.symm
  have four : v ≤ 0x1FFFFFFF ↔ v.toNat < 2 ^ 29 := UInt32.le_iff_toNat_le.trans Nat.lt_succ_iff.symm
  unfold pushUInt width?
  simp only [one, two, four]
  split
  · rfl
  · split
    · rfl
    · split <;> rfl

theorem pushInt_eq_width (v : Int32) :
    pushInt v = match signedWidth? v.toInt with
      | some w => pushPayload w (w.rotateBits v.toUInt32)
      | none => throw (.malformed (.compressedOutOfRange v.toInt)) := by
  have one : -0x40 ≤ v ∧ v ≤ 0x3F ↔ -2 ^ 6 ≤ v.toInt ∧ v.toInt < 2 ^ 6 :=
    and_congr Int32.le_iff_toInt_le (Int32.le_iff_toInt_le.trans Int.lt_add_one_iff.symm)
  have two : -0x2000 ≤ v ∧ v ≤ 0x1FFF ↔ -2 ^ 13 ≤ v.toInt ∧ v.toInt < 2 ^ 13 :=
    and_congr Int32.le_iff_toInt_le (Int32.le_iff_toInt_le.trans Int.lt_add_one_iff.symm)
  have four : -0x10000000 ≤ v ∧ v ≤ 0x0FFFFFFF ↔ -2 ^ 28 ≤ v.toInt ∧ v.toInt < 2 ^ 28 :=
    and_congr Int32.le_iff_toInt_le (Int32.le_iff_toInt_le.trans Int.lt_add_one_iff.symm)
  unfold pushInt signedWidth?
  simp only [one, two, four]
  split
  · rfl
  · split
    · rfl
    · split <;> rfl

/-- Writing by bits appends the bytes of the number, or leaves the buffer as it is. -/
theorem pushUInt_eq (v : UInt32) (buffer : Bytes) : pushUInt v buffer = appended (compressed v.toNat) buffer := by
  rw [pushUInt_eq_width]
  unfold compressed
  cases width : width? v.toNat with
  | some w => exact pushPayload_eq (width?_bound width) buffer
  | none => rfl

theorem pushInt_eq (v : Int32) (buffer : Bytes) : pushInt v buffer = appended (compressedInt v.toInt) buffer := by
  rw [pushInt_eq_width]
  unfold compressedInt
  cases width : signedWidth? v.toInt with
  | some w =>
    have rotated := rotateBits_eq (signedWidth?_range width)
    have written := pushPayload_eq (rotated ▸ rotate_lt width) buffer
    rw [rotated] at written
    exact written
  | none => rfl

/-! Exact writers -/

/-- A writer of the numbers in a range, and their reader. A number of the range is appended to any buffer, in bytes from
    which it is read back, whatever follows them; any other number is refused, and the buffer stays as it was. What is read
    from any bytes is a number of the range, and its written form, which is read back too, is no longer than these bytes. -/
structure Exact {ν α : Type} (encode : ν → Result Bytes) (write : ν → EStateM Error Bytes Unit) (read : Reader α)
    (value : ν → α) (range : ν → Prop) : Prop where
  writes : ∀ v, range v → ∃ bytes, encode v = .ok bytes ∧ (∀ buffer, write v buffer = .ok () (buffer ++ bytes)) ∧
    ∀ position, Reads read position bytes (value v)
  refuses : ∀ v, ¬ range v → ∃ defect, encode v = .error (.malformed defect) ∧
    ∀ buffer, write v buffer = .error (.malformed defect) buffer
  rewrites : read.Consumes fun taken a => ∃ v bytes, range v ∧ value v = a ∧ encode v = .ok bytes ∧
    bytes.length ≤ taken.length ∧ ∀ position, Reads read position bytes a

section

variable {ν α : Type} {encode : ν → Result Bytes} {write : ν → EStateM Error Bytes Unit} {read : Reader α} {value : ν → α}
  {range : ν → Prop} {held : Bytes → α → Prop}

/-- `held` says which bytes hold a value, in whatever width. -/
theorem exact_of_held (same : ∀ v buffer, write v buffer = appended (encode v) buffer)
    (encodes : ∀ v, range v → ∃ bytes, encode v = .ok bytes ∧ held bytes (value v))
    (fails : ∀ v, ¬ range v → ∃ defect, encode v = .error (.malformed defect))
    (reads : ∀ {bytes a}, held bytes a → ∀ position, Reads read position bytes a) (consumes : read.Consumes held)
    (least : ∀ {bytes a}, held bytes a → ∃ v, range v ∧ value v = a ∧ Outcome.Within (encode v) bytes.length) :
    Exact encode write read value range where
  writes v inRange := by
    obtain ⟨bytes, encoded, holds⟩ := encodes v inRange
    exact ⟨bytes, encoded, fun buffer => by rw [same, encoded, appended], reads holds⟩
  refuses v outside := by
    obtain ⟨defect, refused⟩ := fails v outside
    exact ⟨defect, refused, fun buffer => by rw [same, refused, appended]⟩
  rewrites := by
    apply consumes.mono
    intro taken a holds
    obtain ⟨v, inRange, rfl, bytes, encoded, short⟩ := least holds
    obtain ⟨bytes', encoded', own⟩ := encodes v inRange
    cases encoded.symm.trans encoded'
    exact ⟨v, bytes, inRange, rfl, encoded, short, reads own⟩

end

theorem exact_uint : Exact (fun v => compressed v.toNat) pushUInt Reader.compressed UInt32.toNat (· ≤ 0x1FFFFFFF) := by
  have bound (v : UInt32) : v ≤ 0x1FFFFFFF ↔ v.toNat < 2 ^ 29 := UInt32.le_iff_toNat_le.trans Nat.lt_succ_iff.symm
  refine exact_of_held pushUInt_eq ?_ ?_ reads_of_holds consumes_compressed ?_
  · intro v inRange
    obtain ⟨bytes, encoded⟩ := exists_compressed ((bound v).mp inRange)
    exact ⟨bytes, encoded, holds_of_compressed encoded⟩
  · intro v outside
    exact ⟨_, compressed_of_le (Nat.le_of_not_lt (mt (bound v).mpr outside))⟩
  · intro bytes n holds
    have number := holds.toNat_ofNat
    have small := holds.lt
    have within := holds.within
    rw [← number] at small within
    exact ⟨UInt32.ofNat n, (bound _).mpr small, number, within⟩

theorem exact_int : Exact (fun v => compressedInt v.toInt) pushInt Reader.compressedInt Int32.toInt
    (fun v => -2 ^ 28 ≤ v.toInt ∧ v.toInt < 2 ^ 28) := by
  refine exact_of_held pushInt_eq ?_ ?_ reads_of_holdsInt consumes_compressedInt ?_
  · intro v inRange
    obtain ⟨bytes, encoded⟩ := exists_compressedInt inRange
    exact ⟨bytes, encoded, holdsInt_of_compressedInt encoded⟩
  · intro v outside
    exact ⟨_, compressedInt_of_outside outside⟩
  · intro bytes n holds
    have range := holds.range
    have within := holds.within
    have number : (Int32.ofInt n).toInt = n := Int32.toInt_ofInt_of_le (by omega) (by omega)
    rw [← number] at range within
    exact ⟨Int32.ofInt n, range, number, within⟩

/-- Numbers and integers of 29 bits are written exactly, and in the fewest bytes, by putting bits behind a buffer. -/
theorem writers_exact :
    Exact (fun v => compressed v.toNat) pushUInt Reader.compressed UInt32.toNat (· ≤ 0x1FFFFFFF) ∧
      Exact (fun v => compressedInt v.toInt) pushInt Reader.compressedInt Int32.toInt
        fun v => -2 ^ 28 ≤ v.toInt ∧ v.toInt < 2 ^ 28 :=
  ⟨exact_uint, exact_int⟩

/-- The least integer of two bytes has its sign in the last bit. -/
example : pushInt (-0x2000) [9] = .ok () [9, 0x80, 0x01] := by rfl

end Compressed

end CilWeaver
