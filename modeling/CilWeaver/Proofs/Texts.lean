import CilWeaver.Bytes.Reader
import CilWeaver.Text.Utf16

/-!
Texts survive both encodings: UTF-8, in which only the zero character has a zero byte, and UTF-16.
-/

namespace CilWeaver

namespace Utf8

theorem toNat_ofNat {n : Nat} (h : n < 256) : (UInt8.ofNat n).toNat = n := by
  rw [UInt8.toNat_ofNat']
  omega

theorem le_ofNat (m : Nat) {n : Nat} {b : UInt8} (hb : b.toNat = m) (hn : n < 256) :
    b ≤ UInt8.ofNat n ↔ m ≤ n := by
  rw [UInt8.le_iff_toNat_le, toNat_ofNat hn, hb]

theorem ofNat_le (m : Nat) {n : Nat} {b : UInt8} (hb : b.toNat = m) (hn : n < 256) :
    UInt8.ofNat n ≤ b ↔ n ≤ m := by
  rw [UInt8.le_iff_toNat_le, toNat_ofNat hn, hb]

theorem ofNat_lt (m : Nat) {n : Nat} {b : UInt8} (hb : b.toNat = m) (hn : n < 256) :
    UInt8.ofNat n < b ↔ n < m := by
  rw [UInt8.lt_iff_toNat_lt, toNat_ofNat hn, hb]

theorem ofNat_eq (m : Nat) {n : Nat} {b : UInt8} (hb : b.toNat = m) (hn : n < 256) :
    UInt8.ofNat n = b ↔ n = m := by
  rw [← UInt8.toNat_inj, toNat_ofNat hn, hb]

theorem continues_ofNat {n : Nat} (h : n < 0x40) : continues (UInt8.ofNat (n + 0x80)) = true := by
  unfold continues
  rw [Bool.and_eq_true, decide_eq_true_eq, decide_eq_true_eq]
  exact ⟨(le_ofNat 0x80 rfl (by omega)).mpr (by omega),
    (ofNat_le 0xBF rfl (by omega)).mpr (by omega)⟩

theorem toNat_lt (c : Char) : c.toNat < 0xD800 ∨ (0xDFFF < c.toNat ∧ c.toNat < 0x110000) := c.valid

theorem continuesThree_ofNat {lead next : Nat} (hlead : lead < 16) (hnext : next < 0x40)
    (overlong : lead = 0 → 0x20 ≤ next) (surrogate : lead = 13 → next < 0x20) :
    continuesThree (UInt8.ofNat (lead + 0xE0)) (UInt8.ofNat (next + 0x80)) = true := by
  unfold continuesThree
  by_cases first : lead = 0
  · rw [if_pos (by subst first; rfl), Bool.and_eq_true, decide_eq_true_eq, decide_eq_true_eq]
    have := overlong first
    exact ⟨(le_ofNat 0xA0 rfl (by omega)).mpr (by omega),
      (ofNat_le 0xBF rfl (by omega)).mpr (by omega)⟩
  · have notFirst : UInt8.ofNat (lead + 0xE0) ≠ 0xE0 := fun h =>
      first (by have := (ofNat_eq 0xE0 rfl (by omega)).mp h; omega)
    rw [if_neg notFirst]
    by_cases high : lead = 13
    · rw [if_pos (by subst high; rfl), Bool.and_eq_true, decide_eq_true_eq, decide_eq_true_eq]
      have := surrogate high
      exact ⟨(le_ofNat 0x80 rfl (by omega)).mpr (by omega),
        (ofNat_le 0x9F rfl (by omega)).mpr (by omega)⟩
    · have notHigh : UInt8.ofNat (lead + 0xE0) ≠ 0xED := fun h =>
        high (by have := (ofNat_eq 0xED rfl (by omega)).mp h; omega)
      rw [if_neg notHigh]
      exact continues_ofNat hnext

theorem continuesFour_ofNat {lead next : Nat} (hlead : lead < 5) (hnext : next < 0x40)
    (overlong : lead = 0 → 0x10 ≤ next) (beyond : lead = 4 → next < 0x10) :
    continuesFour (UInt8.ofNat (lead + 0xF0)) (UInt8.ofNat (next + 0x80)) = true := by
  unfold continuesFour
  by_cases first : lead = 0
  · rw [if_pos (by subst first; rfl), Bool.and_eq_true, decide_eq_true_eq, decide_eq_true_eq]
    have := overlong first
    exact ⟨(le_ofNat 0x90 rfl (by omega)).mpr (by omega),
      (ofNat_le 0xBF rfl (by omega)).mpr (by omega)⟩
  · have notFirst : UInt8.ofNat (lead + 0xF0) ≠ 0xF0 := fun h =>
      first (by have := (ofNat_eq 0xF0 rfl (by omega)).mp h; omega)
    rw [if_neg notFirst]
    by_cases last : lead = 4
    · rw [if_pos (by subst last; rfl), Bool.and_eq_true, decide_eq_true_eq, decide_eq_true_eq]
      have := beyond last
      exact ⟨(le_ofNat 0x80 rfl (by omega)).mpr (by omega),
        (ofNat_le 0x8F rfl (by omega)).mpr (by omega)⟩
    · have notLast : UInt8.ofNat (lead + 0xF0) ≠ 0xF4 := fun h =>
        last (by have := (ofNat_eq 0xF4 rfl (by omega)).mp h; omega)
      rw [if_neg notLast]
      exact continues_ofNat hnext

theorem decodeFrom_one {n : Nat} (h : n < 0x80) (index : Nat) (done : List Char) (rest : Bytes) :
    decodeFrom index done (UInt8.ofNat n :: rest) = decodeFrom (index + 1) (Char.ofNat n :: done) rest := by
  have ascii : UInt8.ofNat n < 0x80 := (ofNat_lt 0x80 rfl (by omega)).mpr h
  rw [decodeFrom.eq_def]
  simp only [if_pos ascii]
  rw [toNat_ofNat (by omega)]

theorem decodeFrom_two {a b : Nat} (ha : 2 ≤ a) (ha' : a < 0x20) (hb : b < 0x40) (index : Nat)
    (done : List Char) (rest : Bytes) :
    decodeFrom index done (UInt8.ofNat (a + 0xC0) :: UInt8.ofNat (b + 0x80) :: rest) =
      decodeFrom (index + 2) (Char.ofNat (64 * a + b) :: done) rest := by
  have one : ¬ UInt8.ofNat (a + 0xC0) < 0x80 := fun h => by
    have := (ofNat_lt 0x80 rfl (by omega)).mp h
    omega
  have two : 0xC2 ≤ UInt8.ofNat (a + 0xC0) ∧ UInt8.ofNat (a + 0xC0) ≤ 0xDF :=
    ⟨(le_ofNat 0xC2 rfl (by omega)).mpr (by omega),
      (ofNat_le 0xDF rfl (by omega)).mpr (by omega)⟩
  have character : assemble ((a + 0xC0) % 32) [UInt8.ofNat (b + 0x80)] = Char.ofNat (64 * a + b) := by
    simp only [assemble, List.foldl_cons, List.foldl_nil]
    rw [toNat_ofNat (show b + 0x80 < 256 by omega)]
    congr 1
    omega
  rw [decodeFrom.eq_def]
  simp only [if_neg one, if_pos two, continues_ofNat hb, Bool.not_true, Bool.false_eq_true, ↓reduceIte]
  rw [toNat_ofNat (show a + 0xC0 < 256 by omega), character]

theorem decodeFrom_three {a b c : Nat} (ha : a < 0x10) (hb : b < 0x40) (hc : c < 0x40)
    (overlong : a = 0 → 0x20 ≤ b) (surrogate : a = 13 → b < 0x20) (index : Nat)
    (done : List Char) (rest : Bytes) :
    decodeFrom index done
        (UInt8.ofNat (a + 0xE0) :: UInt8.ofNat (b + 0x80) :: UInt8.ofNat (c + 0x80) :: rest) =
      decodeFrom (index + 3) (Char.ofNat (64 * (64 * a + b) + c) :: done) rest := by
  have one : ¬ UInt8.ofNat (a + 0xE0) < 0x80 := fun h => by
    have := (ofNat_lt 0x80 rfl (by omega)).mp h
    omega
  have two : ¬ (0xC2 ≤ UInt8.ofNat (a + 0xE0) ∧ UInt8.ofNat (a + 0xE0) ≤ 0xDF) := fun h => by
    have := (ofNat_le 0xDF rfl (by omega)).mp h.2
    omega
  have three : 0xE0 ≤ UInt8.ofNat (a + 0xE0) ∧ UInt8.ofNat (a + 0xE0) ≤ 0xEF :=
    ⟨(le_ofNat 0xE0 rfl (by omega)).mpr (by omega),
      (ofNat_le 0xEF rfl (by omega)).mpr (by omega)⟩
  have character : assemble ((a + 0xE0) % 16) [UInt8.ofNat (b + 0x80), UInt8.ofNat (c + 0x80)] =
      Char.ofNat (64 * (64 * a + b) + c) := by
    simp only [assemble, List.foldl_cons, List.foldl_nil]
    rw [toNat_ofNat (show b + 0x80 < 256 by omega), toNat_ofNat (show c + 0x80 < 256 by omega)]
    congr 1
    omega
  rw [decodeFrom.eq_def]
  simp only [if_neg one, if_neg two, if_pos three, continuesThree_ofNat ha hb overlong surrogate, continues_ofNat hc, Bool.not_true,
    Bool.false_eq_true, ↓reduceIte]
  rw [toNat_ofNat (show a + 0xE0 < 256 by omega), character]

theorem decodeFrom_four {a b c d : Nat} (ha : a < 5) (hb : b < 0x40) (hc : c < 0x40) (hd : d < 0x40)
    (overlong : a = 0 → 0x10 ≤ b) (beyond : a = 4 → b < 0x10) (index : Nat)
    (done : List Char) (rest : Bytes) :
    decodeFrom index done
        (UInt8.ofNat (a + 0xF0) :: UInt8.ofNat (b + 0x80) :: UInt8.ofNat (c + 0x80)
          :: UInt8.ofNat (d + 0x80) :: rest) =
      decodeFrom (index + 4) (Char.ofNat (64 * (64 * (64 * a + b) + c) + d) :: done) rest := by
  have one : ¬ UInt8.ofNat (a + 0xF0) < 0x80 := fun h => by
    have := (ofNat_lt 0x80 rfl (by omega)).mp h
    omega
  have two : ¬ (0xC2 ≤ UInt8.ofNat (a + 0xF0) ∧ UInt8.ofNat (a + 0xF0) ≤ 0xDF) := fun h => by
    have := (ofNat_le 0xDF rfl (by omega)).mp h.2
    omega
  have three : ¬ (0xE0 ≤ UInt8.ofNat (a + 0xF0) ∧ UInt8.ofNat (a + 0xF0) ≤ 0xEF) := fun h => by
    have := (ofNat_le 0xEF rfl (by omega)).mp h.2
    omega
  have four : 0xF0 ≤ UInt8.ofNat (a + 0xF0) ∧ UInt8.ofNat (a + 0xF0) ≤ 0xF4 :=
    ⟨(le_ofNat 0xF0 rfl (by omega)).mpr (by omega),
      (ofNat_le 0xF4 rfl (by omega)).mpr (by omega)⟩
  have character : assemble ((a + 0xF0) % 8)
      [UInt8.ofNat (b + 0x80), UInt8.ofNat (c + 0x80), UInt8.ofNat (d + 0x80)] =
      Char.ofNat (64 * (64 * (64 * a + b) + c) + d) := by
    simp only [assemble, List.foldl_cons, List.foldl_nil]
    rw [toNat_ofNat (show b + 0x80 < 256 by omega), toNat_ofNat (show c + 0x80 < 256 by omega),
      toNat_ofNat (show d + 0x80 < 256 by omega)]
    congr 1
    omega
  rw [decodeFrom.eq_def]
  simp only [if_neg one, if_neg two, if_neg three, if_pos four, continuesFour_ofNat ha hb overlong beyond, continues_ofNat hc, continues_ofNat hd,
    Bool.not_true, Bool.false_eq_true, ↓reduceIte]
  rw [toNat_ofNat (show a + 0xF0 < 256 by omega), character]

/-- A character is decoded from its bytes, with one case for each number of them. -/
theorem decodeFrom_encodeChar (index : Nat) (done : List Char) (c : Char) (rest : Bytes) :
    decodeFrom index done (String.utf8EncodeChar c ++ rest) =
      decodeFrom (index + (String.utf8EncodeChar c).length) (c :: done) rest := by
  have range := toNat_lt c
  have same : Char.ofNat c.toNat = c := Char.ofNat_toNat c
  have value : c.val.toNat = c.toNat := rfl
  unfold String.utf8EncodeChar
  simp only [value]
  by_cases one : c.toNat ≤ 0x7F
  · rw [if_pos one]
    refine (decodeFrom_one (by omega) index done rest).trans ?_
    rw [same]
    rfl
  · by_cases two : c.toNat ≤ 0x7FF
    · rw [if_neg one, if_pos two]
      refine (decodeFrom_two (by omega) (by omega) (by omega) index done rest).trans ?_
      have number : 64 * (c.toNat / 64 % 0x20) + c.toNat % 0x40 = c.toNat := by omega
      rw [number, same]
      rfl
    · by_cases three : c.toNat ≤ 0xFFFF
      · rw [if_neg one, if_neg two, if_pos three]
        refine (decodeFrom_three (by omega) (by omega) (by omega) (by omega) (by omega) index done
          rest).trans ?_
        have number : 64 * (64 * (c.toNat / 4096 % 0x10) + c.toNat / 64 % 0x40) + c.toNat % 0x40 =
            c.toNat := by omega
        rw [number, same]
        rfl
      · rw [if_neg one, if_neg two, if_neg three]
        refine (decodeFrom_four (by omega) (by omega) (by omega) (by omega) (by omega) (by omega)
          index done rest).trans ?_
        have number : 64 * (64 * (64 * (c.toNat / 262144 % 0x08) + c.toNat / 4096 % 0x40)
            + c.toNat / 64 % 0x40) + c.toNat % 0x40 = c.toNat := by omega
        rw [number, same]
        rfl

theorem decodeFrom_encode (index : Nat) (done text : List Char) :
    decodeFrom index done (encode text) = .ok (done.reverse ++ text) := by
  induction text generalizing index done with
  | nil => simp [encode, decodeFrom]
  | cons c text ih =>
    rw [encode, List.flatMap_cons, decodeFrom_encodeChar]
    rw [encode] at ih
    rw [ih]
    simp

theorem decode_encode (text : List Char) : decode (encode text) = .ok text :=
  decodeFrom_encode 0 [] text

theorem decode?_encode (text : List Char) : decode? (encode text) = some text := by
  rw [decode?, decode_encode]
  rfl

theorem zero_mem_encodeChar {c : Char} (h : 0 ∈ String.utf8EncodeChar c) : c = '\x00' := by
  have range := toNat_lt c
  have value : c.val.toNat = c.toNat := rfl
  have zero : ∀ n < 256, (0 : UInt8) = UInt8.ofNat n → n = 0 := fun n bound equal =>
    (ofNat_eq 0 rfl bound).mp equal.symm
  unfold String.utf8EncodeChar at h
  simp only [value] at h
  split at h
  · have nul := zero c.toNat (by omega) (List.mem_singleton.mp h)
    rw [← Char.ofNat_toNat c, nul]
  · exfalso
    split at h
    · rcases List.mem_cons.mp h with h | h
      · have := zero _ (by omega) h
        omega
      · have := zero _ (by omega) (List.mem_singleton.mp h)
        omega
    · split at h
      · rcases List.mem_cons.mp h with h | h
        · have := zero _ (by omega) h
          omega
        · rcases List.mem_cons.mp h with h | h
          · have := zero _ (by omega) h
            omega
          · have := zero _ (by omega) (List.mem_singleton.mp h)
            omega
      · rcases List.mem_cons.mp h with h | h
        · have := zero _ (by omega) h
          omega
        · rcases List.mem_cons.mp h with h | h
          · have := zero _ (by omega) h
            omega
          · rcases List.mem_cons.mp h with h | h
            · have := zero _ (by omega) h
              omega
            · have := zero _ (by omega) (List.mem_singleton.mp h)
              omega

theorem zero_notMem_encode {text : List Char} (h : '\x00' ∉ text) : 0 ∉ encode text := by
  intro member
  obtain ⟨c, hc, zero⟩ := List.mem_flatMap.mp member
  exact h (zero_mem_encodeChar zero ▸ hc)

theorem length_encode (text : List Char) :
    (encode text).length = (String.ofList text).utf8ByteSize := by
  induction text with
  | nil => rfl
  | cons c text ih =>
    rw [encode, List.flatMap_cons, List.length_append, String.length_utf8EncodeChar]
    rw [encode] at ih
    rw [ih, String.ofList_cons, String.utf8ByteSize_append, String.utf8ByteSize_singleton]

theorem length_le_encode (text : List Char) : text.length ≤ (encode text).length := by
  induction text with
  | nil => exact Nat.le_refl 0
  | cons c text ih =>
    have positive := List.length_pos_iff.mpr (@String.utf8EncodeChar_ne_nil c)
    rw [encode] at ih
    rw [encode, List.flatMap_cons, List.length_append, List.length_cons]
    omega

end Utf8

namespace Utf16

theorem toNat_ofNat {n : Nat} (h : n < 2 ^ 16) : (UInt16.ofNat n).toNat = n := by
  rw [UInt16.toNat_ofNat']
  omega

theorem isLead_ofNat {n : Nat} (h : n < 2 ^ 16) :
    isLead (UInt16.ofNat n) = (decide (0xD800 ≤ n) && decide (n < 0xDC00)) := by
  simp only [isLead, UInt16.le_iff_toNat_le, UInt16.lt_iff_toNat_lt, toNat_ofNat h]
  rfl

theorem isTrail_ofNat {n : Nat} (h : n < 2 ^ 16) :
    isTrail (UInt16.ofNat n) = (decide (0xDC00 ≤ n) && decide (n < 0xE000)) := by
  simp only [isTrail, UInt16.le_iff_toNat_le, UInt16.lt_iff_toNat_lt, toNat_ofNat h]
  rfl

theorem decode?_encodeChar (c : Char) (rest : List UInt16) :
    decode? (encodeChar c ++ rest) = (decode? rest).map (c :: ·) := by
  have range := Utf8.toNat_lt c
  have same : Char.ofNat c.toNat = c := Char.ofNat_toNat c
  unfold encodeChar
  by_cases one : c.toNat < 0x10000
  · have lead : isLead (UInt16.ofNat c.toNat) = false := by
      rw [isLead_ofNat one, Bool.and_eq_false_iff, decide_eq_false_iff_not, decide_eq_false_iff_not]
      omega
    have trail : isTrail (UInt16.ofNat c.toNat) = false := by
      rw [isTrail_ofNat one, Bool.and_eq_false_iff, decide_eq_false_iff_not, decide_eq_false_iff_not]
      omega
    rw [if_pos one, List.singleton_append, decode?.eq_def]
    simp only [lead, trail, Bool.false_eq_true, ↓reduceIte, toNat_ofNat one, same]
  · have high : 0xD800 + (c.toNat - 0x10000) / 0x400 < 2 ^ 16 := by omega
    have low : 0xDC00 + (c.toNat - 0x10000) % 0x400 < 2 ^ 16 := by omega
    have lead : isLead (UInt16.ofNat (0xD800 + (c.toNat - 0x10000) / 0x400)) = true := by
      rw [isLead_ofNat high, Bool.and_eq_true, decide_eq_true_eq, decide_eq_true_eq]
      omega
    have trail : isTrail (UInt16.ofNat (0xDC00 + (c.toNat - 0x10000) % 0x400)) = true := by
      rw [isTrail_ofNat low, Bool.and_eq_true, decide_eq_true_eq, decide_eq_true_eq]
      omega
    have number : 0x10000 + (0xD800 + (c.toNat - 0x10000) / 0x400 - 0xD800) * 0x400
        + (0xDC00 + (c.toNat - 0x10000) % 0x400 - 0xDC00) = c.toNat := by omega
    rw [if_neg one, List.cons_append, List.singleton_append, decode?.eq_def]
    simp only [lead, trail, ↓reduceIte, toNat_ofNat high, toNat_ofNat low, number, same]

theorem decode?_encode (text : List Char) : decode? (encode text) = some text := by
  induction text with
  | nil => rfl
  | cons c text ih =>
    rw [encode, List.flatMap_cons, decode?_encodeChar]
    rw [encode] at ih
    rw [ih]
    rfl

end Utf16

end CilWeaver
