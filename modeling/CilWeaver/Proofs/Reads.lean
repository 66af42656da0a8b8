import CilWeaver.Bytes.Column
import CilWeaver.Proofs.Steps

/-!
What a reader does with bytes that were written for it: it consumes exactly these bytes, whatever
follows, and answers the value. Such facts compose along the steps of a reader.
-/

namespace CilWeaver

theorem padding_of_aligned {start : Nat} (aligned : start % 4 = 0) (size : Nat) :
    padding 4 (start + size) = padding 4 size := by
  unfold padding
  omega

theorem padTo_of_aligned {front : Bytes} (aligned : front.length % 4 = 0) (bytes : Bytes) :
    padTo 4 (front ++ bytes) = front ++ padTo 4 bytes := by
  rw [padTo, padTo, List.length_append, padding_of_aligned aligned, List.append_assoc]

theorem length_padTo_mod (bytes : Bytes) : (padTo 4 bytes).length % 4 = 0 := by
  rw [length_padTo]
  exact padding_four _

theorem padTo_padTo (bytes : Bytes) : padTo 4 (padTo 4 bytes) = padTo 4 bytes := by
  have aligned := length_padTo_mod bytes
  have none : padding 4 (padTo 4 bytes).length = 0 := by
    rw [padding, aligned]
  rw [padTo, none]
  exact List.append_nil _

theorem head?_padTo {bytes : Bytes} (start : bytes.head? = some 0) : (padTo 4 bytes).head? = some 0 := by
  obtain ⟨tail, rfl⟩ := List.head?_eq_some_iff.mp start
  rfl

namespace Reader

open Step

variable {α β : Type}

/-- The reader consumes exactly `bytes`, which start at `position`, and answers `a`. -/
def Reads (r : Reader α) (position : Nat) (bytes : Bytes) (a : α) : Prop :=
  ∀ rest, r ⟨position, bytes ++ rest⟩ = .ok a ⟨position + bytes.length, rest⟩

theorem reads_pure (position : Nat) (a : α) : Reads (pure a) position [] a := fun _ => rfl

theorem Reads.bind {r : Reader α} {f : α → Reader β} {position : Nat} {front back : Bytes} {a : α}
    {b : β} (first : Reads r position front a)
    (second : Reads (f a) (position + front.length) back b) :
    Reads (r >>= f) position (front ++ back) b := by
  intro rest
  rw [List.append_assoc, bind_of_ok (first _), second rest, List.length_append, Nat.add_assoc]

/-- A first step that consumes nothing. -/
theorem Reads.bind_nil {r : Reader α} {f : α → Reader β} {position : Nat} {back : Bytes} {a : α} {b : β}
    (first : Reads r position [] a) (second : Reads (f a) position back b) :
    Reads (r >>= f) position back b := first.bind second

/-- A last step that only changes the value consumes nothing. -/
theorem Reads.map {r : Reader α} {position : Nat} {bytes : Bytes} {a : α}
    (reads : Reads r position bytes a) (f : α → β) :
    Reads (r >>= fun a => pure (f a)) position bytes (f a) := by
  intro rest
  rw [bind_of_ok (reads rest)]
  rfl

theorem Reads.map' {r : Reader α} {position : Nat} {bytes : Bytes} {a : α}
    (reads : Reads r position bytes a) (f : α → β) : Reads (f <$> r) position bytes (f a) := by
  intro rest
  rw [map_apply, reads rest]

theorem Reads.parse {r : Reader α} {bytes : Bytes} {a : α} (reads : Reads r 0 bytes a)
    (rest : Bytes) : r.parse (bytes ++ rest) = .ok a := by
  have run := reads rest
  unfold Reader.parse EStateM.run Cursor.start
  rw [run]

theorem Reads.mapError {r : Reader α} {position : Nat} {bytes : Bytes} {a : α}
    (reads : Reads r position bytes a) (f : Error → Error) :
    Reads (r.mapError f) position bytes a := by
  intro rest
  unfold Reader.mapError
  rw [reads rest]

theorem Reads.orDefect {r : Reader α} {position : Nat} {bytes : Bytes} {a : α}
    (reads : Reads r position bytes a) (defect : Defect) :
    Reads (r.orDefect defect) position bytes a := reads.mapError _

theorem reads_ofResult {result : Result α} {a : α} (h : result = .ok a) (position : Nat) :
    Reads (ofResult result) position [] a := by
  subst h
  exact reads_pure position a

theorem reads_position (position : Nat) : Reads Reader.position position [] position := fun _ => rfl

theorem reads_byte (position : Nat) (b : UInt8) : Reads byte position [b] b := fun _ => rfl

theorem reads_byte_bind {f : UInt8 → Reader β} {position : Nat} {b : UInt8} {back : Bytes} {c : β}
    (second : Reads (f b) (position + 1) back c) : Reads (byte >>= f) position (b :: back) c :=
  (reads_byte position b).bind second

theorem reads_take (position : Nat) (bytes : Bytes) :
    Reads (take bytes.length) position bytes bytes := by
  intro rest
  simp [take]

theorem reads_take_of_length {count : Nat} (position : Nat) {bytes : Bytes}
    (h : bytes.length = count) : Reads (take count) position bytes bytes :=
  h ▸ reads_take position bytes

theorem reads_skip {count : Nat} (position : Nat) {bytes : Bytes} (h : bytes.length = count) :
    Reads (skip count) position bytes () :=
  (reads_take_of_length position h).map fun _ => ()

/-- Bytes that fill up to a multiple are skipped. -/
theorem reads_align {alignment : Nat} (position : Nat) {bytes : Bytes}
    (h : bytes.length = padding alignment position) : Reads (align alignment) position bytes () :=
  (reads_position position).bind (reads_skip position h)

theorem reads_u16 (position : Nat) (n : UInt16) : Reads u16 position (u16Bytes n) n := by
  have number : UInt16.ofNat (leNat (leBytes 2 n.toNat)) = n := by
    have small : n.toNat < 256 ^ 2 := n.toNat_lt
    rw [leNat_leBytes, Nat.mod_eq_of_lt small, UInt16.ofNat_toNat]
  have read := (reads_take_of_length position (length_leBytes 2 n.toNat)).map
    fun bytes => UInt16.ofNat (leNat bytes)
  rw [number] at read
  exact read

theorem reads_u32 (position : Nat) (n : UInt32) : Reads u32 position (u32Bytes n) n := by
  have number : UInt32.ofNat (leNat (leBytes 4 n.toNat)) = n := by
    have small : n.toNat < 256 ^ 4 := n.toNat_lt
    rw [leNat_leBytes, Nat.mod_eq_of_lt small, UInt32.ofNat_toNat]
  have read := (reads_take_of_length position (length_leBytes 4 n.toNat)).map
    fun bytes => UInt32.ofNat (leNat bytes)
  rw [number] at read
  exact read

theorem reads_u64 (position : Nat) (n : UInt64) : Reads u64 position (u64Bytes n) n := by
  have number : UInt64.ofNat (leNat (leBytes 8 n.toNat)) = n := by
    have small : n.toNat < 256 ^ 8 := n.toNat_lt
    rw [leNat_leBytes, Nat.mod_eq_of_lt small, UInt64.ofNat_toNat]
  have read := (reads_take_of_length position (length_leBytes 8 n.toNat)).map
    fun bytes => UInt64.ofNat (leNat bytes)
  rw [number] at read
  exact read

theorem reads_u16_ofNat {n : Nat} (h : n < 2 ^ 16) (position : Nat) :
    Reads u16 position (leBytes 2 n) (UInt16.ofNat n) := by
  have read := reads_u16 position (UInt16.ofNat n)
  rw [u16Bytes, UInt16.toNat_ofNat', Nat.mod_eq_of_lt h] at read
  exact read

theorem reads_u32_ofNat {n : Nat} (h : n < 2 ^ 32) (position : Nat) :
    Reads u32 position (leBytes 4 n) (UInt32.ofNat n) := by
  have read := reads_u32 position (UInt32.ofNat n)
  rw [u32Bytes, UInt32.toNat_ofNat', Nat.mod_eq_of_lt h] at read
  exact read

theorem reads_byte_ofNat (n position : Nat) :
    Reads byte position (leBytes 1 n) (UInt8.ofNat n) := reads_byte position (UInt8.ofNat n)

/-- A number that a column accepts is the one that is read at the same width. -/
theorem reads_column {wide : Bool} {value : Nat} {bytes : Bytes}
    (h : CilWeaver.column wide value = .ok bytes) (position : Nat) :
    Reads (Reader.column wide) position bytes value := by
  unfold CilWeaver.column at h
  split at h
  · rename_i fits
    obtain rfl := Except.ok.inj h
    have number : leNat (leBytes (columnWidth wide) value) = value := by
      rw [leNat_leBytes, Nat.mod_eq_of_lt fits]
    have read := (reads_take_of_length position (length_leBytes (columnWidth wide) value)).map leNat
    rw [number] at read
    exact read
  · cases h

/-- Values that are read one behind the other. -/
inductive ReadsAll (r : Reader α) : (position : Nat) → Bytes → List α → Prop where
  | nil (position : Nat) : ReadsAll r position [] []
  | cons {position : Nat} {front back : Bytes} {a : α} {as : List α} (first : Reads r position front a)
      (others : ReadsAll r (position + front.length) back as) :
      ReadsAll r position (front ++ back) (a :: as)

/-- Values that are written by `write` at any position. -/
theorem readsAll_flatMap {σ : Type} {r : Reader α} {write : σ → Bytes} {value : σ → α} {items : List σ}
    (h : ∀ item ∈ items, ∀ position, Reads r position (write item) (value item)) (position : Nat) :
    ReadsAll r position (items.flatMap write) (items.map value) := by
  induction items generalizing position with
  | nil => exact .nil position
  | cons item items ih =>
    rw [List.flatMap_cons, List.map_cons]
    exact .cons (h item (by simp) position)
      (ih (fun other member => h other (by simp [member])) (position + (write item).length))

theorem ReadsAll.timesFrom {r : Reader α} {position : Nat} {bytes : Bytes} {as : List α}
    (all : ReadsAll r position bytes as) (done : List α) :
    Reads (timesFrom r done as.length) position bytes (done.reverse ++ as) := by
  induction all generalizing done with
  | nil position => simpa [Reader.timesFrom] using reads_pure position done.reverse
  | @cons position front back a as first others ih =>
    have both : Reads (r >>= fun a => Reader.timesFrom r (a :: done) as.length) position
        (front ++ back) ((a :: done).reverse ++ as) := first.bind (ih (a :: done))
    rw [List.reverse_cons, List.append_assoc] at both
    exact both

theorem ReadsAll.times {r : Reader α} {position : Nat} {bytes : Bytes} {as : List α}
    (all : ReadsAll r position bytes as) : Reads (times as.length r) position bytes as := by
  simpa [Reader.times] using all.timesFrom []

/-- A step for each item, in order. -/
theorem reads_mapM {σ : Type} {f : σ → Reader α} {write : σ → Bytes} {value : σ → α} {items : List σ}
    (h : ∀ item ∈ items, ∀ position, Reads (f item) position (write item) (value item)) (position : Nat) :
    Reads (items.mapM f) position (items.flatMap write) (items.map value) := by
  induction items generalizing position with
  | nil =>
    rw [List.mapM_nil]
    exact reads_pure position []
  | cons item items ih =>
    rw [List.mapM_cons, List.flatMap_cons, List.map_cons]
    exact (h item (by simp) position).bind
      ((ih (fun other member => h other (by simp [member])) _).map fun others => value item :: others)

/-- A run up to the end of the data, when each value takes a byte at least. -/
theorem ReadsAll.untilEndFrom {r : Reader α} {position : Nat} {bytes : Bytes} {as : List α}
    (all : ReadsAll r position bytes as) (nonempty : ∀ position a, ¬ Reads r position [] a)
    (done : List α) {fuel : Nat} (enough : bytes.length ≤ fuel) :
    untilEndFrom r done fuel ⟨position, bytes⟩ =
      .ok (done.reverse ++ as) ⟨position + bytes.length, []⟩ := by
  induction all generalizing done fuel with
  | nil position =>
    cases fuel with
    | zero => simp [Reader.untilEndFrom, pure, EStateM.pure]
    | succ fuel =>
      simp [Reader.untilEndFrom, bind_apply, hasMore, pure, EStateM.pure]
  | @cons position front back a as first others ih =>
    have positive : front ≠ [] := by
      rintro rfl
      exact nonempty _ _ first
    have length : 0 < front.length := List.length_pos_iff.mpr positive
    rw [List.length_append] at enough
    cases fuel with
    | zero => omega
    | succ fuel =>
      have more : hasMore ⟨position, front ++ back⟩ = .ok true ⟨position, front ++ back⟩ := by
        simp [hasMore, positive]
      rw [Reader.untilEndFrom, bind_of_ok more]
      simp only [↓reduceIte]
      rw [bind_of_ok (first back), ih (a :: done) (by omega)]
      simp [Nat.add_assoc]

theorem ReadsAll.untilEnd {r : Reader α} {position : Nat} {bytes : Bytes} {as : List α}
    (all : ReadsAll r position bytes as) (nonempty : ∀ position a, ¬ Reads r position [] a) :
    untilEnd r ⟨position, bytes⟩ = .ok as ⟨position + bytes.length, []⟩ := by
  simpa [Reader.untilEnd] using all.untilEndFrom nonempty [] (Nat.le_refl bytes.length)

end Reader

end CilWeaver
