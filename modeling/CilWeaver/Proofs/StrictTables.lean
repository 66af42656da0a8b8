import CilWeaver.Heap.Guids
import CilWeaver.Heap.Strings
import CilWeaver.Heap.UserStrings
import CilWeaver.Proofs.ParsedImages
import CilWeaver.Proofs.StrictRoots

/-!
Strict readers of heaps and tables. An entry of a heap is looked for behind its index, and the rows of a table behind
the place of the table.
-/

namespace CilWeaver

open Partly (Gives)
open StrictReader (Agrees AgreesAt)

/-- Whether the heap has the zero byte in front. -/
def strictStart (data : Bytes) : Partly Bool :=
  if data.isEmpty then return false
  else do return (← Partly.need data[0]?) == 0

theorem gives_start (data : Bytes) : (strictStart data).Gives (.ok (decide (data.head? = some 0))) := by
  cases data with
  | nil => exact .pure false
  | cons b data =>
    have same : (b == 0) = decide ((b :: data).head? = some 0) := by
      rw [List.head?_cons, Bool.eq_iff_iff, beq_iff_eq, decide_eq_true_eq, Option.some.injEq]
    rw [← same]
    exact .pure _

/-- What follows the index, if it is an index of the data. -/
def strictBehind (data : Bytes) (index : Nat) : Partly Bytes := do
  if data.length ≤ index then throw .outOfBounds
  Partly.need (Partly.slice data index data.length)

theorem gives_behind {data : Bytes} {index : Nat} (inside : index < data.length) :
    (strictBehind data index).Gives (.ok (data.drop index)) := by
  unfold strictBehind
  rw [if_neg (Nat.not_le.mpr inside), Partly.slice_length (Nat.le_of_lt inside)]
  exact .pure _

theorem gives_behind_end {data : Bytes} {index : Nat} (outside : data.length ≤ index) :
    (strictBehind data index).Gives (.error .outOfBounds) := by
  unfold strictBehind
  rw [if_pos outside]
  exact .throw _

/-- A reader that needs a byte fails behind the end. -/
theorem gives_parse_behind {α : Type} {x : StrictReader α} {r : Reader α} (agrees : Agrees x r)
    (hungry : r.parse [] = .error .outOfBounds) (data : Bytes) (index : Nat) :
    (strictBehind data index >>= x.parse).Gives (r.parse (data.drop index)) := by
  by_cases inside : index < data.length
  · exact (gives_behind inside).bind_ok (agrees.parse _)
  · have outside := Nat.le_of_not_lt inside
    rw [List.drop_of_length_le outside, hungry]
    exact (gives_behind_end outside).bind_error

namespace StringHeap

def strictParse (data : Bytes) : Partly StringHeap := do
  if ← strictStart data then return ⟨data⟩ else Partly.malformed (.heapStart .strings)

def strictGet (h : StringHeap) (index : Nat) : Partly String := do
  let tail ← strictBehind h.data index
  let stop := tail.findIdx (· == 0)
  if stop = tail.length then Partly.malformed (.unterminatedString index)
  else match Utf8.decode? (← Partly.need (Partly.slice tail 0 stop)) with
    | some text => return String.ofList text
    | none => Partly.malformed (.stringNotUtf8 index)

theorem gives_parse (data : Bytes) : (strictParse data).Gives (StringHeap.parse data) := by
  refine (gives_start data).bind_ok ?_
  unfold StringHeap.parse
  simp only [decide_eq_true_eq]
  exact .ite (fun _ => .pure _) fun _ => .malformed _

theorem gives_get (h : StringHeap) (index : Nat) : (h.strictGet index).Gives (h.get index) := by
  unfold strictGet StringHeap.get
  dsimp only
  by_cases inside : index < h.data.length
  · have more : ¬ (h.data.drop index).isEmpty = true := by
      rw [List.isEmpty_iff, List.drop_eq_nil_iff]
      exact Nat.not_le.mpr inside
    have length : ((h.data.drop index).takeWhile (· != 0)).length = (h.data.drop index).findIdx (· == 0) := by
      rw [Root.takeWhile_eq_take, List.length_take, Nat.min_eq_left List.findIdx_le_length]
    rw [if_neg more, length]
    refine (gives_behind inside).bind_ok (.ite (fun _ => .malformed _) fun _ => ?_)
    refine .need (Root.slice_to_zero _) ?_
    cases Utf8.decode? ((h.data.drop index).takeWhile (· != 0)) with
    | none => exact .malformed _
    | some text => exact .pure _
  · have none : (h.data.drop index).isEmpty = true := by
      rw [List.isEmpty_iff, List.drop_eq_nil_iff]
      exact Nat.le_of_not_lt inside
    rw [if_pos none]
    exact (gives_behind_end (Nat.le_of_not_lt inside)).bind_error

end StringHeap

namespace BlobHeap

def strictParse (data : Bytes) : Partly BlobHeap := do
  if ← strictStart data then return ⟨data⟩ else Partly.malformed (.heapStart .blobs)

def strictGet (h : BlobHeap) (index : Nat) : Partly Bytes := do
  let tail ← strictBehind h.data index
  (do StrictReader.take (← StrictReader.compressed) : StrictReader Bytes).parse tail

theorem gives_parse (data : Bytes) : (strictParse data).Gives (BlobHeap.parse data) := by
  refine (gives_start data).bind_ok ?_
  unfold BlobHeap.parse
  simp only [decide_eq_true_eq]
  exact .ite (fun _ => .pure _) fun _ => .malformed _

theorem gives_get (h : BlobHeap) (index : Nat) : (h.strictGet index).Gives (h.get index) :=
  gives_parse_behind (Agrees.compressed.bind fun size => .take size) rfl h.data index

end BlobHeap

namespace UserStringHeap

def strictParse (data : Bytes) : Partly UserStringHeap := do
  if ← strictStart data then return ⟨data⟩ else Partly.malformed (.heapStart .userStrings)

def strictReadEntry (index : Nat) : StrictReader String := do
  let length ← StrictReader.compressed
  if length % 2 != 1 then StrictReader.malformed (.userStringLength length index)
  let size ← StrictReader.need (Partly.minus length 1)
  match Utf16.decode? (units (← StrictReader.take size)) with
  | some text => return String.ofList text
  | none => StrictReader.malformed (.userStringNotUtf16 index)

def strictGet (h : UserStringHeap) (index : Nat) : Partly String := do
  if index = 0 then throw .outOfBounds
  let tail ← strictBehind h.data index
  (strictReadEntry index).parse tail

theorem gives_parse (data : Bytes) : (strictParse data).Gives (UserStringHeap.parse data) := by
  refine (gives_start data).bind_ok ?_
  unfold UserStringHeap.parse
  simp only [decide_eq_true_eq]
  exact .ite (fun _ => .pure _) fun _ => .malformed _

theorem agrees_readEntry (index : Nat) : Agrees (strictReadEntry index) (readEntry index) := by
  refine Agrees.compressed.bind fun length => .check fun odd => ?_
  have positive : 1 ≤ length := by
    rw [bne_iff_ne, ne_eq, not_not] at odd
    omega
  refine .need (Partly.minus_of_le positive) ((Agrees.take _).bind fun bytes => ?_)
  cases Utf16.decode? (units bytes) with
  | none => exact .malformed _
  | some text => exact .pure _

theorem gives_get (h : UserStringHeap) (index : Nat) : (h.strictGet index).Gives (h.get index) := by
  unfold strictGet UserStringHeap.get
  by_cases zero : index = 0
  · rw [if_pos zero, if_pos zero]
    exact .throw _
  · rw [if_neg zero, if_neg zero]
    exact gives_parse_behind (agrees_readEntry index) rfl h.data index

end UserStringHeap

namespace GuidHeap

def strictGet (h : GuidHeap) (index : Nat) : Partly Guid := do
  if index = 0 then return .nil
  if h.data.length < 16 * index then throw .outOfBounds
  let before ← Partly.need (Partly.minus index 1)
  let bytes ← Partly.need (Partly.slice h.data (16 * before) (16 * before + 16))
  Partly.need (Guid.ofBytes? bytes)

theorem gives_get (h : GuidHeap) (index : Nat) : (h.strictGet index).Gives (h.get index) := by
  unfold strictGet GuidHeap.get
  by_cases zero : index = 0
  · rw [if_pos zero, if_pos zero]
    exact .pure _
  · rw [if_neg zero, if_neg zero]
    have length : ((h.data.drop (16 * (index - 1))).take 16).length = min 16 (h.data.length - 16 * (index - 1)) := by
      rw [List.length_take, List.length_drop]
    by_cases outside : h.data.length < 16 * index
    · have short : Guid.ofBytes? ((h.data.drop (16 * (index - 1))).take 16) = none := dif_neg (by omega)
      rw [if_pos outside, short]
      exact .throw _
    · have full : ((h.data.drop (16 * (index - 1))).take 16).length = 16 := by omega
      rw [if_neg outside]
      refine .need (Partly.minus_of_le (by omega)) (.need (Partly.slice_of_le (by omega) (by omega)) ?_)
      rw [Nat.add_sub_cancel_left, Guid.ofBytes?, dif_pos full]
      exact .pure _

end GuidHeap

/-! The tables -/

namespace Layout

/-- The row counts of all tables are held in a list of this length. -/
def tableSlots : Nat := 64

def strictSet (slots : List Nat) (count : Table × Nat) : Option (List Nat) :=
  if count.1.number < slots.length then some (slots.set count.1.number count.2) else none

def strictOfCounts (counts : List (Table × Nat)) (heapSizes : UInt8) : Option Layout := do
  let slots ← counts.foldlM strictSet (List.replicate tableSlots 0)
  if Table.all.all fun t => t.number < slots.length then return ⟨fun t => slots[t.number]?.getD 0, heapSizes⟩ else none

/-- Each count takes the place of an older one of its table. -/
theorem exists_slots {counts : List (Table × Nat)} {slots : List Nat} (length : slots.length = tableSlots) :
    ∃ filled : List Nat, counts.foldlM strictSet slots = some filled ∧ filled.length = tableSlots ∧
      ∀ t : Table, filled[t.number]?.getD 0 = (counts.reverse.lookup t).getD (slots[t.number]?.getD 0) := by
  induction counts generalizing slots with
  | nil => exact ⟨slots, rfl, length, fun t => rfl⟩
  | cons count counts ih =>
    have inside : count.1.number < slots.length := length ▸ count.1.number_lt
    have set : strictSet slots count = some (slots.set count.1.number count.2) := if_pos inside
    obtain ⟨filled, folded, same, found⟩ := ih ((List.length_set).trans length)
    refine ⟨filled, ?_, same, fun t => ?_⟩
    · rw [List.foldlM_cons, set]
      exact folded
    · rw [found, List.reverse_cons, List.lookup_append]
      cases counts.reverse.lookup t with
      | some n => rfl
      | none =>
        by_cases this : t = count.1
        · subst this
          simp [List.lookup, inside]
        · have other : count.1.number ≠ t.number := fun h => this (Table.number_inj.mp h).symm
          simp [List.lookup, this, List.getElem?_set_ne other, beq_false_of_ne]

theorem strictOfCounts_eq (counts : List (Table × Nat)) (heapSizes : UInt8) :
    strictOfCounts counts heapSizes = some (.ofCounts counts heapSizes) := by
  obtain ⟨slots, filled, length, found⟩ := @exists_slots counts _ (List.length_replicate (n := tableSlots) (a := 0))
  have all : Table.all.all (fun t => t.number < slots.length) = true := by
    rw [List.all_eq_true]
    intro t _
    rw [length]
    exact decide_eq_true t.number_lt
  have rows : (fun t : Table => slots[t.number]?.getD 0) = fun t => (counts.reverse.lookup t).getD 0 := by
    funext t
    have empty : (List.replicate tableSlots 0)[t.number]?.getD 0 = 0 := by
      rw [List.getElem?_replicate]
      split <;> rfl
    rw [found, empty]
  unfold strictOfCounts
  rw [filled]
  change (if Table.all.all (fun t => t.number < slots.length) = true then some _ else none) = _
  rw [if_pos all, rows]
  rfl

def strictReadColumn (l : Layout) : (c : Column) → StrictReader c.Value
  | .word => StrictReader.u16
  | .double => StrictReader.u32
  | .string => StrictReader.column l.wideStrings
  | .guid => StrictReader.column l.wideGuids
  | .blob => StrictReader.column l.wideBlobs
  | .row t => StrictReader.column (l.wideRows t)
  | .coded kind => do
    match CodedIndex.decode kind (← StrictReader.column (l.wideCoded kind)) with
    | .ok index => return index
    | .error e => throw e

def strictReadValues (l : Layout) : (cs : List Column) → StrictReader (Values cs)
  | [] => return ()
  | c :: cs => do
    let v ← l.strictReadColumn c
    let vs ← l.strictReadValues cs
    return (v, vs)

theorem agrees_readColumn (l : Layout) (c : Column) : Agrees (l.strictReadColumn c) (l.readColumn c) := by
  cases c with
  | word => exact .u16
  | double => exact .u32
  | string => exact .column _
  | guid => exact .column _
  | blob => exact .column _
  | row t => exact .column _
  | coded kind =>
    refine (Agrees.column _).bind fun value => ?_
    cases CodedIndex.decode kind value with
    | ok index => exact .pure _
    | error e => exact .throw _

theorem agrees_readValues (l : Layout) (cs : List Column) : Agrees (l.strictReadValues cs) (l.readValues cs) := by
  induction cs with
  | nil => exact .pure _
  | cons c cs ih => exact (l.agrees_readColumn c).bind fun v => ih.bind fun vs => .pure _

end Layout

namespace TableStream

def strictReadCount (allowed : List Table) (number : Nat) : StrictReader (Table × Nat) := do
  match (Table.ofNumber? number).filter allowed.contains with
  | none => StrictReader.malformed (.unsupportedTable number)
  | some table =>
    let rows := (← StrictReader.u32).toNat
    if maxRows < rows then StrictReader.malformed (.tooManyRows table rows)
    return (table, rows)

def strictReadHeader (allowed : List Table) : StrictReader (Layout × UInt64 × UInt64 × List (Table × Nat)) := do
  let _ ← StrictReader.u32
  let major ← StrictReader.byte
  let minor ← StrictReader.byte
  if major != 2 || minor != 0 then StrictReader.malformed (.tablesVersion major.toNat minor.toNat)
  let heapSizes ← StrictReader.byte
  let _ ← StrictReader.byte
  let valid ← StrictReader.u64
  let sorted ← StrictReader.u64
  let counts ← (setBits valid).mapM (strictReadCount allowed)
  let layout ← StrictReader.need (Layout.strictOfCounts counts heapSizes)
  return (layout, valid, sorted, counts)

def strictParse (allowed : List Table) (data : Bytes) : Partly TableStream := do
  let ((layout, valid, sorted, counts), p) ← strictReadHeader allowed ⟨data, 0⟩
  return ⟨data, layout, valid, sorted, ← Partly.of (place layout data.length p.position counts)⟩

def strictValues (s : TableStream) (t : Table) : Partly (List (Values t.columns)) :=
  match s.places.find? (·.table == t) with
  | none => return []
  | some place => do
    let behind ← Partly.need (Partly.slice s.data place.offset s.data.length)
    (StrictReader.times place.rows (s.layout.strictReadValues t.columns)).parse behind

def strictRows (s : TableStream) (ρ : Type) [TableRow ρ] : Partly (List ρ) :=
  (·.map TableRow.ofValues) <$> s.strictValues (TableRow.table ρ)

theorem agrees_readCount (allowed : List Table) (number : Nat) :
    Agrees (strictReadCount allowed number) (readCount allowed number) := by
  unfold strictReadCount readCount
  cases (Table.ofNumber? number).filter allowed.contains with
  | none => exact .malformed _
  | some table => exact Agrees.u32.bind fun _ => .check fun _ => .pure _

theorem agrees_readHeader (allowed : List Table) : Agrees (strictReadHeader allowed) (readHeader allowed) := by
  refine Agrees.u32.bind fun _ => Agrees.byte.bind fun _ => Agrees.byte.bind fun _ => .check fun _ => ?_
  refine Agrees.byte.bind fun heapSizes => Agrees.byte.bind fun _ => Agrees.u64.bind fun _ => Agrees.u64.bind fun _ => ?_
  refine (Agrees.mapM (agrees_readCount allowed) _).bind fun counts => ?_
  exact .need (Layout.strictOfCounts_eq counts heapSizes) (.pure _)

theorem gives_parse (allowed : List Table) (data : Bytes) : (strictParse allowed data).Gives (TableStream.parse allowed data) := by
  have header := agrees_readHeader allowed data 0 (Nat.zero_le _)
  unfold strictParse TableStream.parse EStateM.run
  cases run : readHeader allowed (.start data) with
  | error e c =>
    rw [header.fails run]
    exact .throw e
  | ok found c =>
    obtain ⟨stop, rfl, -, -, same⟩ := header.answers run
    rw [same]
    exact (Gives.of (place found.1 data.length stop found.2.2.2)).bind fun _ _ => .pure _

/-- The tables of the stream lie inside of its data. -/
def Within (s : TableStream) : Prop := ∀ place ∈ s.places, place.offset ≤ s.data.length

theorem offsets_of_place (layout : Layout) (size offset : Nat) (counts : List (Table × Nat)) :
    Outcome.Answers (place layout size offset counts) fun places => ∀ place ∈ places, place.offset ≤ size := by
  induction counts generalizing offset with
  | nil =>
    intro places h
    cases h
    exact fun _ member => absurd member List.not_mem_nil
  | cons count counts ih =>
    unfold place
    cases layout.rowSize? count.1 with
    | none => exact .error
    | some rowSize =>
      refine .ite (fun _ => .error) fun inside => .bind_of (ih _) fun places rest => .pure ?_
      have first : offset ≤ size := by
        omega
      exact List.forall_mem_cons.mpr ⟨first, rest⟩

theorem within_of_parse {allowed : List Table} {data : Bytes} {s : TableStream} (parsed : TableStream.parse allowed data = .ok s) :
    s.Within := by
  obtain ⟨counts, c, -, placed, same⟩ := exists_header parsed
  intro place member
  rw [same]
  exact offsets_of_place _ _ _ _ _ placed place member

theorem Within.gives_rows {s : TableStream} (within : s.Within) (ρ : Type) [TableRow ρ] : (s.strictRows ρ).Gives (s.rows ρ) := by
  refine Gives.map ?_
  unfold strictValues values
  cases found : s.places.find? (·.table == TableRow.table ρ) with
  | none => exact .pure _
  | some place =>
    refine .need (Partly.slice_length (within place (List.mem_of_find?_eq_some found))) ?_
    exact ((s.layout.agrees_readValues _).times _).parse _

end TableStream

end CilWeaver
