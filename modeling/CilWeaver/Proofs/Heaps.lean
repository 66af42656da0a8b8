import CilWeaver.Heap.Blobs
import CilWeaver.Heap.Guids
import CilWeaver.Heap.Strings
import CilWeaver.Heap.UserStrings
import CilWeaver.Proofs.Compressed
import CilWeaver.Proofs.Texts

/-!
Heaps under construction only grow, and what was added stays readable at its index, whatever is
added later.
-/

namespace CilWeaver

variable {α β ε σ : Type}

theorem lookup_mem [BEq α] [LawfulBEq α] {entries : List (α × β)} {key : α} {value : β}
    (h : entries.lookup key = some value) : (key, value) ∈ entries := by
  obtain ⟨front, back, rfl, -⟩ := List.lookup_eq_some_iff.mp h
  simp

/-- The index of a value among the entries of a heap, unless it is a value that needs no entry. -/
def entryIndex? [BEq α] (isNull : α → Bool) (entries : List (α × Nat)) (value : α) : Option Nat :=
  if isNull value then some 0 else entries.lookup value

/-- How adding a value to a heap under construction ends. A value that is known has its index already, a new one is
    stored at the next index, and when it is refused nothing has changed. -/
inductive HeapAddition (b : σ) (known? : Option Nat) (next : Nat) (Stored : σ → Prop) :
    EStateM.Result Error σ Nat → Prop
  | known {index : Nat} : known? = some index → HeapAddition b known? next Stored (.ok index b)
  | stored {b' : σ} : known? = none → Stored b' → HeapAddition b known? next Stored (.ok next b')
  | refused {e : Error} : known? = none → HeapAddition b known? next Stored (.error e b)

/-- A value is at an index of a blob heap that starts with `data`, and stays there. -/
def BlobHeap.Holds (data : Bytes) (index : Nat) (value : Bytes) : Prop :=
  ∀ rest, BlobHeap.get ⟨data ++ rest⟩ index = .ok value

theorem BlobHeap.Holds.grow {data more : Bytes} {index : Nat} {value : Bytes}
    (holds : Holds data index value) (growth : data <+: more) : Holds more index value := by
  obtain ⟨tail, rfl⟩ := growth
  intro rest
  rw [List.append_assoc]
  exact holds (tail ++ rest)

namespace BlobHeapBuilder

structure Sound (b : BlobHeapBuilder) : Prop where
  start : b.data.head? = some 0
  entries : ∀ value index, (value, index) ∈ b.entries → BlobHeap.Holds b.data index value

theorem sound_empty : Sound {} := ⟨rfl, fun _ _ h => by cases h⟩

theorem Sound.holds_empty {b : BlobHeapBuilder} (sound : b.Sound) : BlobHeap.Holds b.data 0 [] := by
  obtain ⟨tail, h⟩ := List.head?_eq_some_iff.mp sound.start
  have zero : compressed 0 = .ok [0] := rfl
  intro rest
  have read := (Reader.reads_compressed zero 0).bind (Reader.reads_take 1 [])
  rw [BlobHeap.get, h]
  exact read.parse (tail ++ rest)

/-- The heap is read from its bytes, filled up as a stream. -/
theorem Sound.parse_build {b : BlobHeapBuilder} (sound : b.Sound) :
    BlobHeap.parse (padTo 4 b.build) = .ok ⟨b.build⟩ := by
  have start : b.build.head? = some 0 := head?_padTo sound.start
  have whole : padTo 4 b.build = b.build := padTo_padTo b.data
  rw [whole, BlobHeap.parse, if_pos start]

theorem holds_entry (data : Bytes) {value length : Bytes} (h : compressed value.length = .ok length) :
    BlobHeap.Holds (data ++ length ++ value) data.length value := by
  intro rest
  have read := (Reader.reads_compressed h 0).bind (Reader.reads_take (0 + length.length) value)
  rw [BlobHeap.get, List.append_assoc, List.append_assoc, List.drop_left, ← List.append_assoc]
  exact read.parse rest

/-- The index of a value that is in the heap. -/
def index? (b : BlobHeapBuilder) : Bytes → Option Nat := entryIndex? List.isEmpty b.entries

/-- The heap with a value behind its length at the end. -/
def Stores (b : BlobHeapBuilder) (value : Bytes) (b' : BlobHeapBuilder) : Prop :=
  ∃ length, compressed value.length = .ok length ∧
    b' = ⟨b.data ++ length ++ value, b.entries ++ [(value, b.data.length)]⟩

theorem add_ends (value : Bytes) (b : BlobHeapBuilder) :
    HeapAddition b (b.index? value) b.data.length (b.Stores value) (add value b) := by
  unfold add index? entryIndex?
  rw [Step.bind_of_ok (show (get : EStateM Error _ _) b = .ok b b from rfl)]
  split
  · exact .known rfl
  · cases found : b.entries.lookup value with
    | some index => exact .known rfl
    | none =>
      dsimp only
      split
      · exact .refused rfl
      · cases size : compressed value.length with
        | error e => exact .refused rfl
        | ok length => exact .stored rfl ⟨length, size, rfl⟩

theorem Sound.holds_index {b : BlobHeapBuilder} (sound : b.Sound) {value : Bytes} {index : Nat}
    (found : b.index? value = some index) : BlobHeap.Holds b.data index value := by
  unfold index? entryIndex? at found
  split at found
  · rename_i empty
    rw [← Option.some.inj found, List.isEmpty_iff.mp empty]
    exact sound.holds_empty
  · exact sound.entries _ _ (lookup_mem found)

/-- Adding a value makes it readable and disturbs nothing. -/
theorem add_ok {value : Bytes} {b b' : BlobHeapBuilder} {index : Nat} (sound : b.Sound)
    (h : add value b = .ok index b') :
    b'.Sound ∧ b.data <+: b'.data ∧ BlobHeap.Holds b'.data index value := by
  have ends := add_ends value b
  rw [h] at ends
  cases ends with
  | known found => exact ⟨sound, List.prefix_refl _, sound.holds_index found⟩
  | stored _ stored =>
    obtain ⟨length, size, rfl⟩ := stored
    have growth : b.data <+: b.data ++ length ++ value := by
      rw [List.append_assoc]
      exact List.prefix_append _ _
    have last := holds_entry b.data size
    refine ⟨⟨?_, ?_⟩, growth, last⟩
    · obtain ⟨tail, start⟩ := List.head?_eq_some_iff.mp sound.start
      simp [start]
    · intro v i member
      rcases List.mem_append.mp member with old | new
      · exact (sound.entries v i old).grow growth
      · cases List.mem_singleton.mp new
        exact last

end BlobHeapBuilder

/-- A text is at an index of a heap of identifiers that starts with `data`, and stays there. -/
def StringHeap.Holds (data : Bytes) (index : Nat) (text : String) : Prop :=
  ∀ rest, StringHeap.get ⟨data ++ rest⟩ index = .ok text

theorem StringHeap.Holds.grow {data more : Bytes} {index : Nat} {text : String}
    (holds : Holds data index text) (growth : data <+: more) : Holds more index text := by
  obtain ⟨tail, rfl⟩ := growth
  intro rest
  rw [List.append_assoc]
  exact holds (tail ++ rest)

theorem takeWhile_nonzero {bytes : Bytes} (h : 0 ∉ bytes) (rest : Bytes) :
    (bytes ++ 0 :: rest).takeWhile (· != 0) = bytes := by
  induction bytes with
  | nil => rfl
  | cons b bytes ih =>
    have nonzero : (b != 0) = true := by
      rw [bne_iff_ne]
      exact fun zero => h (by simp [zero])
    rw [List.cons_append, List.takeWhile_cons, nonzero, if_pos rfl,
      ih fun member => h (List.mem_cons_of_mem b member)]

/-- The text in front of the first zero character. -/
def beforeNul (text : String) : String := .ofList (text.toList.takeWhile (· != '\x00'))

theorem nul_notMem_beforeNul (text : String) : '\x00' ∉ (beforeNul text).toList := by
  intro nul
  rw [beforeNul, String.toList_ofList] at nul
  exact absurd (List.mem_takeWhile_imp nul) (by decide)

theorem beforeNul_eq {text : String} (noNul : '\x00' ∉ text.toList) : beforeNul text = text := by
  have whole : text.toList.takeWhile (· != '\x00') = text.toList := by
    rw [List.takeWhile_eq_self_iff]
    intro c member
    rw [bne_iff_ne]
    rintro rfl
    exact noNul member
  rw [beforeNul, whole, String.ofList_toList]

/-- The first zero byte of a text that ends with one stands behind that part of the text. -/
theorem utf8Bytes_split (text : String) (rest : Bytes) :
    ∃ more, utf8Bytes text ++ 0 :: rest = utf8Bytes (beforeNul text) ++ 0 :: more := by
  by_cases noNul : '\x00' ∉ text.toList
  · exact ⟨rest, by rw [beforeNul_eq noNul]⟩
  · have whole := List.takeWhile_append_dropWhile (p := (· != '\x00')) (l := text.toList)
    cases shape : text.toList.dropWhile (· != '\x00') with
    | nil =>
      rw [shape, List.append_nil] at whole
      rw [← whole] at noNul
      have none := nul_notMem_beforeNul text
      rw [beforeNul, String.toList_ofList] at none
      exact absurd none noNul
    | cons c more =>
      have nul : c = '\x00' := by
        have head := List.head?_dropWhile_not (· != '\x00') text.toList
        rw [shape] at head
        simpa using head
      subst nul
      rw [shape] at whole
      refine ⟨Utf8.encode more ++ 0 :: rest, ?_⟩
      have bytes : utf8Bytes text = utf8Bytes (beforeNul text) ++ 0 :: Utf8.encode more := by
        rw [utf8Bytes, utf8Bytes, beforeNul, String.toList_ofList, ← whole]
        simp only [Utf8.encode, List.flatMap_append, List.flatMap_cons]
        rw [whole]
        rfl
      rw [bytes, List.append_assoc, List.cons_append]

namespace StringHeapBuilder

structure Sound (b : StringHeapBuilder) : Prop where
  start : b.data.head? = some 0
  entries : ∀ text index, (text, index) ∈ b.entries → StringHeap.Holds b.data index text

theorem sound_empty : Sound {} := ⟨rfl, fun _ _ h => by cases h⟩

theorem holds_entry (data : Bytes) {text : String} (h : '\x00' ∉ text.toList) :
    StringHeap.Holds (data ++ utf8Bytes text ++ [0]) data.length text := by
  intro rest
  have bytes : (utf8Bytes text ++ 0 :: rest).takeWhile (· != 0) = utf8Bytes text :=
    takeWhile_nonzero (Utf8.zero_notMem_encode h) rest
  have shape : (data ++ utf8Bytes text ++ [0] ++ rest).drop data.length = utf8Bytes text ++ 0 :: rest := by
    rw [List.append_assoc, List.append_assoc, List.drop_left, List.singleton_append]
  have decoded : Utf8.decode? (utf8Bytes text) = some text.toList := Utf8.decode?_encode _
  unfold StringHeap.get
  simp only [shape, bytes, decoded, String.ofList_toList]
  simp

theorem Sound.holds_empty {b : StringHeapBuilder} (sound : b.Sound) : StringHeap.Holds b.data 0 "" := by
  obtain ⟨tail, h⟩ := List.head?_eq_some_iff.mp sound.start
  intro rest
  rw [h]
  rfl

/-- The index of a text that is in the heap. -/
def index? (b : StringHeapBuilder) : String → Option Nat := entryIndex? String.isEmpty b.entries

/-- The heap with a text in front of a zero byte at the end. -/
def Stores (b : StringHeapBuilder) (text : String) (b' : StringHeapBuilder) : Prop :=
  '\x00' ∉ text.toList ∧ b' = ⟨b.data ++ utf8Bytes text ++ [0], b.entries ++ [(text, b.data.length)]⟩

theorem add_ends (text : String) (b : StringHeapBuilder) :
    HeapAddition b (b.index? text) b.data.length (b.Stores text) (add text b) := by
  unfold add index? entryIndex?
  rw [Step.bind_of_ok (show (get : EStateM Error _ _) b = .ok b b from rfl)]
  split
  · exact .known rfl
  · cases found : b.entries.lookup text with
    | some index => exact .known rfl
    | none =>
      dsimp only
      split
      · exact .refused rfl
      · rename_i noNul
        split
        · exact .refused rfl
        · exact .stored rfl ⟨noNul, rfl⟩

theorem Sound.holds_index {b : StringHeapBuilder} (sound : b.Sound) {text : String} {index : Nat}
    (found : b.index? text = some index) : StringHeap.Holds b.data index text := by
  unfold index? entryIndex? at found
  split at found
  · rename_i empty
    rw [← Option.some.inj found, String.isEmpty_iff.mp empty]
    exact sound.holds_empty
  · exact sound.entries _ _ (lookup_mem found)

theorem add_ok {text : String} {b b' : StringHeapBuilder} {index : Nat} (sound : b.Sound)
    (h : add text b = .ok index b') :
    b'.Sound ∧ b.data <+: b'.data ∧ StringHeap.Holds b'.data index text := by
  have ends := add_ends text b
  rw [h] at ends
  cases ends with
  | known found => exact ⟨sound, List.prefix_refl _, sound.holds_index found⟩
  | stored _ stored =>
    obtain ⟨noNul, rfl⟩ := stored
    have growth : b.data <+: b.data ++ utf8Bytes text ++ [0] := by
      rw [List.append_assoc]
      exact List.prefix_append _ _
    have last : StringHeap.Holds (b.data ++ utf8Bytes text ++ [0]) b.data.length text := holds_entry b.data noNul
    refine ⟨⟨?_, ?_⟩, growth, last⟩
    · obtain ⟨tail, start⟩ := List.head?_eq_some_iff.mp sound.start
      simp [start]
    · intro v i member
      rcases List.mem_append.mp member with old | new
      · exact (sound.entries v i old).grow growth
      · cases List.mem_singleton.mp new
        exact last

end StringHeapBuilder

/-- A literal is at an index of a heap that starts with `data`, and stays there. -/
def UserStringHeap.Holds (data : Bytes) (index : Nat) (text : String) : Prop :=
  ∀ rest, UserStringHeap.get ⟨data ++ rest⟩ index = .ok text

theorem UserStringHeap.Holds.grow {data more : Bytes} {index : Nat} {text : String}
    (holds : Holds data index text) (growth : data <+: more) : Holds more index text := by
  obtain ⟨tail, rfl⟩ := growth
  intro rest
  rw [List.append_assoc]
  exact holds (tail ++ rest)

theorem UserStringHeap.units_flatMap (units : List UInt16) :
    UserStringHeap.units (units.flatMap u16Bytes) = units := by
  induction units with
  | nil => rfl
  | cons unit units ih =>
    have number : UInt16.ofNat (leNat (leBytes 2 unit.toNat)) = unit := by
      have small : unit.toNat < 256 ^ 2 := unit.toNat_lt
      rw [leNat_leBytes, Nat.mod_eq_of_lt small, UInt16.ofNat_toNat]
    rw [List.flatMap_cons, u16Bytes]
    simp only [leBytes, List.cons_append, List.nil_append, UserStringHeap.units] at number ⊢
    rw [number, ih]

namespace UserStringHeapBuilder

structure Sound (b : UserStringHeapBuilder) : Prop where
  start : b.data.head? = some 0
  entries : ∀ text index, (text, index) ∈ b.entries →
    index ≤ maxIndex ∧ UserStringHeap.Holds b.data index text

theorem sound_empty : Sound {} := ⟨rfl, fun _ _ h => by cases h⟩

theorem Sound.length_pos {b : UserStringHeapBuilder} (sound : b.Sound) : 0 < b.data.length := by
  obtain ⟨tail, h⟩ := List.head?_eq_some_iff.mp sound.start
  simp [h]

theorem length_flatMap_u16Bytes (units : List UInt16) : (units.flatMap u16Bytes).length = 2 * units.length :=
  length_flatMap_of_size (fun _ => length_leBytes _ _) units

theorem holds_entry {data : Bytes} (positive : 0 < data.length) {text : String} {length : Bytes}
    (mark : UInt8)
    (h : compressed (2 * (Utf16.encode text.toList).length + 1) = .ok length) :
    UserStringHeap.Holds
      (data ++ length ++ (Utf16.encode text.toList).flatMap u16Bytes ++ [mark]) data.length text := by
  intro rest
  have shape : (data ++ length ++ (Utf16.encode text.toList).flatMap u16Bytes ++ [mark] ++ rest).drop
      data.length = length ++ (Utf16.encode text.toList).flatMap u16Bytes ++ (mark :: rest) := by
    simp [List.append_assoc]
  have odd : ((2 * (Utf16.encode text.toList).length + 1) % 2 != 1) = false := by
    rw [bne_eq_false_iff_eq]
    omega
  have entry : Reader.Reads (UserStringHeap.readEntry data.length) 0
      (length ++ (Utf16.encode text.toList).flatMap u16Bytes) text := by
    refine (Reader.reads_compressed h 0).bind ?_
    simp only [odd, Bool.false_eq_true, ↓reduceIte]
    have units := (Reader.reads_take_of_length (0 + length.length)
      (length_flatMap_u16Bytes (Utf16.encode text.toList)))
    have same : 2 * (Utf16.encode text.toList).length + 1 - 1 =
        2 * (Utf16.encode text.toList).length := by omega
    rw [same]
    intro more
    rw [Step.bind_of_ok (units more)]
    simp only [UserStringHeap.units_flatMap, Utf16.decode?_encode, String.ofList_toList]
    rfl
  rw [UserStringHeap.get, if_neg (by omega), shape]
  exact entry.parse (mark :: rest)

/-- The index of a literal that is in the heap. The empty one has an entry like any other. -/
def index? (b : UserStringHeapBuilder) : String → Option Nat := entryIndex? (fun _ => false) b.entries

/-- The heap with a literal at the end: its length, its code units and its mark. -/
def Stores (b : UserStringHeapBuilder) (text : String) (b' : UserStringHeapBuilder) : Prop :=
  b.data.length ≤ maxIndex ∧ ∃ length mark, compressed (2 * (Utf16.encode text.toList).length + 1) = .ok length ∧
    b' = ⟨b.data ++ length ++ (Utf16.encode text.toList).flatMap u16Bytes ++ [mark],
      b.entries ++ [(text, b.data.length)]⟩

theorem add_ends (text : String) (b : UserStringHeapBuilder) :
    HeapAddition b (b.index? text) b.data.length (b.Stores text) (add text b) := by
  unfold add index? entryIndex?
  rw [Step.bind_of_ok (show (get : EStateM Error _ _) b = .ok b b from rfl), if_neg Bool.false_ne_true]
  cases found : b.entries.lookup text with
  | some index => exact .known rfl
  | none =>
    dsimp only
    split
    · exact .refused rfl
    · rename_i near
      cases size : compressed (2 * (Utf16.encode text.toList).length + 1) with
      | error e => exact .refused rfl
      | ok length => exact .stored rfl ⟨Nat.not_lt.mp near, length, _, size, rfl⟩

theorem Sound.holds_index {b : UserStringHeapBuilder} (sound : b.Sound) {text : String} {index : Nat}
    (found : b.index? text = some index) : index ≤ maxIndex ∧ UserStringHeap.Holds b.data index text := by
  unfold index? entryIndex? at found
  rw [if_neg Bool.false_ne_true] at found
  exact sound.entries _ _ (lookup_mem found)

theorem add_ok {text : String} {b b' : UserStringHeapBuilder} {index : Nat} (sound : b.Sound)
    (h : add text b = .ok index b') :
    b'.Sound ∧ b.data <+: b'.data ∧ index ≤ maxIndex ∧ UserStringHeap.Holds b'.data index text := by
  have ends := add_ends text b
  rw [h] at ends
  cases ends with
  | known found => exact ⟨sound, List.prefix_refl _, sound.holds_index found⟩
  | stored _ stored =>
    obtain ⟨near, length, mark, size, rfl⟩ := stored
    have growth : b.data <+: b.data ++ length ++ (Utf16.encode text.toList).flatMap u16Bytes ++ [mark] := by
      rw [List.append_assoc, List.append_assoc]
      exact List.prefix_append _ _
    have last := holds_entry sound.length_pos mark size
    refine ⟨⟨?_, ?_⟩, growth, near, last⟩
    · obtain ⟨tail, start⟩ := List.head?_eq_some_iff.mp sound.start
      simp [start]
    · intro v i member
      rcases List.mem_append.mp member with old | new
      · obtain ⟨small, holds⟩ := sound.entries v i old
        exact ⟨small, holds.grow growth⟩
      · cases List.mem_singleton.mp new
        exact ⟨near, last⟩

end UserStringHeapBuilder

/-- An identifier is at an index of a heap whose first entries are `guids`, and stays there. -/
def GuidHeap.Holds (guids : List Guid) (index : Nat) (guid : Guid) : Prop :=
  ∀ rest, GuidHeap.get ⟨guids.flatMap (·.bytes) ++ rest⟩ index = .ok guid

theorem GuidHeap.Holds.grow {guids more : List Guid} {index : Nat} {guid : Guid}
    (holds : Holds guids index guid) (growth : guids <+: more) : Holds more index guid := by
  obtain ⟨tail, rfl⟩ := growth
  intro rest
  rw [List.flatMap_append, List.append_assoc]
  exact holds (tail.flatMap (·.bytes) ++ rest)

theorem GuidHeap.length_flatMap (guids : List Guid) : (guids.flatMap (·.bytes)).length = 16 * guids.length :=
  length_flatMap_of_size (·.length_eq) guids

theorem GuidHeap.holds_nil (guids : List Guid) : GuidHeap.Holds guids 0 .nil := fun _ => rfl

theorem GuidHeap.holds_last (guids : List Guid) (guid : Guid) :
    GuidHeap.Holds (guids ++ [guid]) (guids.length + 1) guid := by
  intro rest
  have bytes : (((guids ++ [guid]).flatMap (·.bytes) ++ rest).drop (16 * guids.length)).take 16 =
      guid.bytes := by
    rw [List.flatMap_append, List.append_assoc, ← GuidHeap.length_flatMap guids, List.drop_left,
      List.flatMap_singleton, ← guid.length_eq, List.take_left]
  rw [GuidHeap.get, if_neg (Nat.succ_ne_zero _), Nat.add_sub_cancel, bytes, Guid.ofBytes?,
    dif_pos guid.length_eq]

namespace GuidHeapBuilder

/-- The index of an identifier that is in the heap. -/
def index? (b : GuidHeapBuilder) (guid : Guid) : Option Nat :=
  if guid.isNil then some 0 else (b.guids.idxOf? guid).map (· + 1)

theorem add_ends (guid : Guid) (b : GuidHeapBuilder) :
    HeapAddition b (b.index? guid) (b.guids.length + 1) (· = ⟨b.guids ++ [guid]⟩) (add guid b) := by
  unfold add index?
  rw [Step.bind_of_ok (show (get : EStateM Error _ _) b = .ok b b from rfl)]
  split
  · exact .known rfl
  · cases found : b.guids.idxOf? guid with
    | some position => exact .known rfl
    | none => exact .stored rfl rfl

theorem holds_index {b : GuidHeapBuilder} {guid : Guid} {index : Nat} (found : b.index? guid = some index) :
    GuidHeap.Holds b.guids index guid := by
  unfold index? at found
  split at found
  · rename_i isNil
    rw [Guid.isNil, beq_iff_eq] at isNil
    rw [← Option.some.inj found, isNil]
    exact GuidHeap.holds_nil _
  · obtain ⟨position, there, rfl⟩ := Option.map_eq_some_iff.mp found
    obtain ⟨bound, same, -⟩ := List.idxOf?_eq_some_iff.mp there
    have front : b.guids.take position ++ [guid] <+: b.guids := by
      rw [← same, ← List.take_succ_eq_append_getElem bound]
      exact List.take_prefix _ _
    have holds := (GuidHeap.holds_last (b.guids.take position) guid).grow front
    rwa [List.length_take, Nat.min_eq_left (by omega)] at holds

theorem add_ok {guid : Guid} {b b' : GuidHeapBuilder} {index : Nat} (h : add guid b = .ok index b') :
    b.guids <+: b'.guids ∧ GuidHeap.Holds b'.guids index guid := by
  have ends := add_ends guid b
  rw [h] at ends
  cases ends with
  | known found => exact ⟨List.prefix_refl _, holds_index found⟩
  | stored _ stored =>
    subst stored
    exact ⟨List.prefix_append _ _, GuidHeap.holds_last _ _⟩

theorem padTo_build (b : GuidHeapBuilder) : padTo 4 b.build = b.build := by
  have size : b.build.length = 16 * b.guids.length := GuidHeap.length_flatMap b.guids
  have none : padding 4 b.build.length = 0 := by
    rw [size, padding]
    omega
  rw [padTo, none, show zeros 0 = [] from rfl, List.append_nil]

theorem parse_build (b : GuidHeapBuilder) : GuidHeap.parse (padTo 4 b.build) = .ok ⟨b.build⟩ := by
  have size : b.build.length = 16 * b.guids.length := GuidHeap.length_flatMap b.guids
  rw [padTo_build, GuidHeap.parse, if_pos (by omega)]

end GuidHeapBuilder

end CilWeaver
