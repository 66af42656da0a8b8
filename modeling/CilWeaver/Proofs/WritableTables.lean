import CilWeaver.Proofs.Rows
import CilWeaver.Proofs.WritableRows

/-!
Tables that can be written. The layout of a stream gives every column as many bytes as the largest heap index or row
number needs, so that all rows which refer to the heaps and tables of the same image can be stored, unless there is more
in these than four bytes can number.
-/

namespace CilWeaver

open Outcome Step TableRows

namespace Layout

/-- Every column of a row holds a value that fits. -/
def Takes (l : Layout) : (cs : List Column) → Values cs → Prop
  | [], _ => True
  | c :: cs, (v, vs) => (∃ bytes, l.writeColumn c v = .ok bytes) ∧ l.Takes cs vs

variable {l : Layout}

theorem takes_of_pieces {cs : List Column} {vs : Values cs} {pieces : List Bytes}
    (written : l.writeValues cs vs = pieces.map .ok) : l.Takes cs vs := by
  induction cs generalizing pieces with
  | nil => trivial
  | cons c cs ih =>
    obtain ⟨v, vs⟩ := vs
    obtain ⟨bytes, others, rfl, first, rest⟩ := List.map_eq_cons_iff.mp written.symm
    exact ⟨⟨bytes, first.symm⟩, ih rest.symm⟩

/-- Every column of a row takes its value, or fails for one of the reasons. -/
def Tries (l : Layout) (reason : Error → Prop) : (cs : List Column) → Values cs → Prop
  | [], _ => True
  | c :: cs, (v, vs) => FailsWith reason (l.writeColumn c v) ∧ l.Tries reason cs vs

theorem fails_of_exists {reason : Error → Prop} {written : Result Bytes} (fits : ∃ bytes, written = .ok bytes) :
    FailsWith reason written := by
  obtain ⟨bytes, rfl⟩ := fits
  exact .ok bytes

theorem Takes.tries {reason : Error → Prop} {cs : List Column} {vs : Values cs} (takes : l.Takes cs vs) :
    l.Tries reason cs vs := by
  induction cs with
  | nil => trivial
  | cons c cs ih => exact ⟨fails_of_exists takes.1, ih takes.2⟩

theorem Tries.pieces {reason : Error → Prop} {cs : List Column} {vs : Values cs} (tries : l.Tries reason cs vs) :
    ∀ piece ∈ l.writeValues cs vs, FailsWith reason piece := by
  induction cs with
  | nil => exact List.forall_mem_nil _
  | cons c cs ih => exact List.forall_mem_cons.mpr ⟨tries.1, ih tries.2⟩

theorem joinPieces_fails {reason : Error → Prop} {pieces : List (Result Bytes)}
    (each : ∀ piece ∈ pieces, FailsWith reason piece) : FailsWith reason (joinPieces pieces) := by
  refine FailsWith.map (fun e failed => ?_) _
  obtain ⟨earlier, piece, later, rfl, -, failed⟩ := Outcome.mapM_eq_error.mp failed
  exact each piece (List.mem_append_right earlier List.mem_cons_self) e failed

theorem column_fails {reason : Error → Prop} {wide : Bool} {n : Nat}
    (overflow : 2 ^ 16 ≤ n → reason (.malformed (.columnOverflow n))) : FailsWith reason (column wide n) := by
  unfold column
  split
  · exact .ok _
  · rename_i beyond
    have least : 2 ^ 16 ≤ 256 ^ columnWidth wide := by cases wide <;> decide
    exact .error (overflow (Nat.le_trans least (Nat.le_of_not_lt beyond)))

/-- A number that fits the narrow width if that is the one. -/
theorem exists_column {wide : Bool} {n : Nat} (narrow : wide = false → n < 2 ^ 16) (small : n < 2 ^ 32) :
    ∃ bytes, column wide n = .ok bytes := by
  have fits : n < 256 ^ columnWidth wide := by
    cases wide with
    | true => exact small
    | false => exact narrow rfl
  exact ⟨_, if_pos fits⟩

theorem exists_column_small (wide : Bool) {n : Nat} (small : n < 2 ^ 16) : ∃ bytes, column wide n = .ok bytes :=
  exists_column (fun _ => small) (Nat.lt_trans small (by decide))

/-- A reference to a row that exists. -/
theorem exists_coded {kind : CodedKind} {index : CodedIndex} (candidate : index.table ∈ kind.tables)
    (inside : index.row ≤ l.rows index.table) : ∃ bytes, l.writeColumn (.coded kind) index = .ok bytes := by
  obtain ⟨tag, found⟩ := Option.isSome_iff_exists.mp (List.isSome_idxOf?.mpr candidate)
  obtain ⟨bound, -, -⟩ := List.idxOf?_eq_some_iff.mp found
  have tagBound : tag < 2 ^ kind.tagBits := Nat.lt_of_lt_of_le bound kind.length_tables_le
  have number : index.encode kind = .ok ((index.row * 2 ^ kind.tagBits + tag) % 2 ^ 32) := by
    unfold CodedIndex.encode
    rw [found]
  have fits : (index.row * 2 ^ kind.tagBits + tag) % 2 ^ 32 < 256 ^ columnWidth (l.wideCoded kind) := by
    cases wide : l.wideCoded kind with
    | true => exact Nat.mod_lt _ (Nat.two_pow_pos 32)
    | false =>
      have few := List.any_eq_false.mp wide index.table candidate
      rw [decide_eq_true_eq, not_le] at few
      have row : index.row + 1 ≤ 2 ^ (16 - kind.tagBits) := by omega
      have scaled := Nat.mul_le_mul_right (2 ^ kind.tagBits) row
      have whole : 2 ^ (16 - kind.tagBits) * 2 ^ kind.tagBits = 2 ^ 16 := by cases kind <;> rfl
      rw [whole, Nat.succ_mul] at scaled
      exact Nat.lt_of_le_of_lt (Nat.mod_le _ _) (show _ < 65536 by omega)
  refine ⟨leBytes (columnWidth (l.wideCoded kind)) ((index.row * 2 ^ kind.tagBits + tag) % 2 ^ 32), ?_⟩
  exact Outcome.bind_eq_ok.mpr ⟨_, number, if_pos fits⟩

end Layout

namespace TableStreamBuilder

/-- A builder with a layout to which only tables with a number below `next` were added. -/
structure Before (layout : Layout) (next : Nat) (b : TableStreamBuilder) : Prop where
  layout : b.layout = layout
  last : ∀ last, b.last? = some last → last.number < next

theorem attempt_addValues {reason : Error → Prop} {layout : Layout} {t : Table} {b : TableStreamBuilder}
    (before : b.Before layout t.number) {rows : List (Values t.columns)} (count : layout.rows t = rows.length)
    (tries : ∀ row ∈ rows, layout.Tries reason t.columns row) :
    Attempt (Before layout (t.number + 1)) reason (addValues t rows b) := by
  obtain ⟨rfl, last⟩ := before
  unfold addValues
  by_cases empty : rows.isEmpty = true
  · rw [if_pos empty]
    exact ⟨rfl, fun t' found => Nat.lt_succ_of_lt (last t' found)⟩
  · have order : ¬ (b.last?.any fun last => t.number ≤ last.number) = true := by
      intro late
      obtain ⟨t', found, le⟩ := (Option.any_eq_true _ _).mp late
      rw [decide_eq_true_eq] at le
      exact Nat.not_le.mpr (last t' found) le
    have same : ¬ (rows.length != b.layout.rows t) = true := by
      rw [count, bne_self_eq_false]
      exact Bool.false_ne_true
    rw [if_neg empty, bind_of_ok (show (get : EStateM Error _ _) b = .ok b b from rfl), if_neg order, if_neg same]
    dsimp only
    cases joined : joinPieces (rows.flatMap (b.layout.writeValues t.columns)) with
    | ok bytes =>
      refine ⟨rfl, fun t' found => ?_⟩
      cases found
      exact Nat.lt_succ_self _
    | error e =>
      refine Layout.joinPieces_fails (fun piece member => ?_) e joined
      obtain ⟨row, inside, own⟩ := List.mem_flatMap.mp member
      exact (tries row inside).pieces piece own

/-- Tables in ascending order, whose rows the layout counts with. -/
theorem attempt_addAll {reason : Error → Prop} {layout : Layout} {tables : List TableRows} {b : TableStreamBuilder}
    {next : Nat}
    (before : b.Before layout next) (ascending : tables.Pairwise fun d e => d.1.number < e.1.number)
    (late : ∀ d ∈ tables, next ≤ d.1.number) (counts : ∀ d ∈ tables, layout.rows d.1 = d.count)
    (tries : ∀ d ∈ tables, ∀ row ∈ d.2, layout.Tries reason d.1.columns row) :
    Attempt (fun _ => True) reason ((tables.forM fun d => addValues d.1 d.2) b) := by
  induction tables generalizing b next with
  | nil => trivial
  | cons d tables ih =>
    rw [List.pairwise_cons] at ascending
    have here : b.Before layout d.1.number :=
      ⟨before.layout, fun t found => Nat.lt_of_lt_of_le (before.last t found) (late d List.mem_cons_self)⟩
    have first := attempt_addValues here (counts d List.mem_cons_self) (tries d List.mem_cons_self)
    rw [List.forM, bind_apply]
    cases added : addValues d.1 d.2 b with
    | ok _ b' =>
      rw [added] at first
      exact ih first ascending.2 ascending.1 (fun e member => counts e (List.mem_cons_of_mem _ member))
        fun e member => tries e (List.mem_cons_of_mem _ member)
    | error e b' =>
      rw [added] at first
      exact first

theorem exists_addAll {layout : Layout} {tables : List TableRows} {b : TableStreamBuilder} {next : Nat}
    (before : b.Before layout next) (ascending : tables.Pairwise fun d e => d.1.number < e.1.number)
    (late : ∀ d ∈ tables, next ≤ d.1.number) (counts : ∀ d ∈ tables, layout.rows d.1 = d.count)
    (takes : ∀ d ∈ tables, ∀ row ∈ d.2, layout.Takes d.1.columns row) :
    ∃ b', (tables.forM fun d => addValues d.1 d.2) b = .ok () b' := by
  have ends : Attempt _ (fun _ => False) _ := attempt_addAll before ascending late counts
    fun d member row inside => (takes d member row inside).tries
  obtain ⟨_, b', run, -⟩ := ends.exists_ok fun _ => id
  exact ⟨b', run⟩

/-- The rows in a stream fit its layout. -/
theorem Contains.takes {b : TableStreamBuilder} {tables : List TableRows} (contains : b.Contains (filled tables)) :
    ∀ table ∈ tables, ∀ row ∈ table.2, b.layout.Takes table.1.columns row := by
  intro table member row inside
  have filledTable : table ∈ filled tables := by
    refine List.mem_filter.mpr ⟨member, ?_⟩
    rw [List.isEmpty_eq_false_iff.mpr (List.ne_nil_of_mem inside)]
    rfl
  obtain ⟨each, all, -⟩ := contains.rows
  obtain ⟨bytes, -, rows, own, -⟩ := forall₂_of_mem all filledTable
  obtain ⟨rowBytes, -, pieces, written, -⟩ := forall₂_of_mem own inside
  exact Layout.takes_of_pieces written

end TableStreamBuilder

/-- Rows that fit the layout of their tables can be added to a stream. -/
theorem RowLists.exists_added {rows : RowLists} {tables : List Table} {heapSizes : UInt8}
    (ascending : tables.Pairwise fun s t => s.number < t.number)
    (takes : ∀ t ∈ tables, ∀ row ∈ rows t, (rows.layout tables heapSizes).Takes t.columns row) :
    ∃ b, ((filled (rows.ofTables tables)).forM fun d => TableStreamBuilder.addValues d.1 d.2)
      { layout := rows.layout tables heapSizes } = .ok () b := by
  have distinct : tables.Nodup := ascending.imp fun less same => Nat.ne_of_lt less (congrArg Table.number same)
  have listed : ∀ d ∈ filled (rows.ofTables tables), d.1 ∈ tables ∧ d.2 = rows d.1 := fun d member =>
    mem_ofTables.mp (mem_of_filled member)
  have start : TableStreamBuilder.Before (rows.layout tables heapSizes) 0 { layout := rows.layout tables heapSizes } :=
    ⟨rfl, fun _ none => by cases none⟩
  refine TableStreamBuilder.exists_addAll start ?_ (fun _ _ => Nat.zero_le _) (fun d member => ?_) fun d member => ?_
  · exact List.Pairwise.filter _ (List.pairwise_map.mpr ascending)
  · obtain ⟨inside, items⟩ := listed d member
    rw [rows_layout distinct, if_pos inside, count, items]
  · obtain ⟨inside, items⟩ := listed d member
    rw [items]
    exact takes d.1 inside

/-! Sizes -/

/-- The most bytes of a column. -/
def Column.space : Column → Nat
  | .word => 2
  | _ => 4

def Table.rowSpace (t : Table) : Nat := (t.columns.map Column.space).sum

/-- The most bytes of a stream of tables: its header with a number for each table, the rows, and what fills it up. -/
def tableSpace (counts : List (Table × Nat)) : Nat := 27 + (counts.map fun c => 4 + c.1.rowSpace * c.2).sum

namespace Layout

theorem width_le (l : Layout) (c : Column) : l.width c ≤ c.space := by
  have all : ∀ wide, columnWidth wide ≤ 4 := by decide
  cases c with
  | word => exact Nat.le_refl 2
  | double => exact Nat.le_refl 4
  | _ => exact all _

theorem rowSize_le (l : Layout) (t : Table) : (t.columns.map l.width).sum ≤ t.rowSpace :=
  List.sum_le_sum fun c _ => l.width_le c

end Layout

namespace TableStreamBuilder

/-- Tables that are added take no more space than is counted for them, the empty ones none. -/
theorem length_tables_le {layout : Layout} {tables : List TableRows} {each : List Bytes}
    (all : List.Forall₂ (TableRows.Bytes layout) (filled tables) each) :
    4 * (filled tables).length + each.flatten.length ≤ ((TableRows.counts tables).map fun c => 4 + c.1.rowSpace * c.2).sum := by
  induction tables generalizing each with
  | nil =>
    cases all
    exact Nat.le_refl 0
  | cons d tables ih =>
    rw [TableRows.counts, List.map_cons, List.map_cons, List.sum_cons, ← TableRows.counts]
    by_cases empty : d.2.isEmpty = true
    · have same : filled (d :: tables) = filled tables := by simp [filled, empty]
      rw [same] at all ⊢
      have others := ih all
      omega
    · have same : filled (d :: tables) = d :: filled tables := by simp [filled, empty]
      rw [same] at all ⊢
      cases all with
      | cons first rest =>
        have others := ih rest
        have own := Nat.mul_le_mul_right d.count (layout.rowSize_le d.1)
        rw [List.length_cons, List.flatten_cons, List.length_append, first.length_eq]
        dsimp only
        omega

theorem length_build_le {b : TableStreamBuilder} {tables : List TableRows} (contains : b.Contains (filled tables)) :
    b.build.length ≤ tableSpace (TableRows.counts tables) := by
  obtain ⟨each, all, rows⟩ := contains.rows
  have content := length_tables_le all
  have numbers : (b.counts.flatMap (leBytes 4)).length = 4 * (filled tables).length := by
    rw [length_flatMap_of_size (fun _ => length_leBytes _ _), contains.counts, List.length_map]
  have head : b.head.length = 24 + 4 * (filled tables).length := by
    simp only [head, u32Bytes, u64Bytes, List.length_append, length_leBytes, List.length_cons, List.length_nil, numbers]
    omega
  have fill : padding 4 (b.head.length + b.rows.length) ≤ 3 := by
    unfold padding
    omega
  rw [build_eq, List.length_append, List.length_append, zeros, List.length_replicate, head, rows]
  rw [rows] at fill
  unfold tableSpace
  rw [head] at fill
  omega

end TableStreamBuilder

/-! Heap indices -/

theorem StringHeap.Holds.lt {data : Bytes} {index : Nat} {text : String} (holds : Holds data index text) :
    index < data.length := by
  have found := holds []
  rw [List.append_nil] at found
  by_contra outside
  unfold StringHeap.get at found
  rw [List.drop_eq_nil_of_le (Nat.le_of_not_lt outside)] at found
  cases found

theorem BlobHeap.Holds.lt {data : Bytes} {index : Nat} {blob : Bytes} (holds : Holds data index blob) : index < data.length := by
  have found := holds []
  rw [List.append_nil] at found
  by_contra outside
  unfold BlobHeap.get at found
  rw [List.drop_eq_nil_of_le (Nat.le_of_not_lt outside)] at found
  cases found

theorem GuidHeap.Holds.le {guids : List Guid} {index : Nat} {guid : Guid} (holds : Holds guids index guid) :
    index ≤ guids.length := by
  have found := holds []
  rw [List.append_nil] at found
  by_contra outside
  have beyond : (guids.flatMap (·.bytes)).length ≤ 16 * (index - 1) := by
    rw [GuidHeap.length_flatMap]
    omega
  unfold GuidHeap.get at found
  rw [if_neg (by omega), List.drop_eq_nil_of_le beyond] at found
  cases found

namespace Module

/-- How many fields and methods the types have, and how many parameters the methods have. -/
def memberCounts (m : Module) : List (List Nat) :=
  [m.types.map (·.fields.length), m.types.map (·.methods.length), (m.types.flatMap (·.methods)).map (·.params.length)]

/-- Why a number does not fit its column in the tables of a module: it is the row behind the last one that the column
    has room for, or there is more in a heap than a column can number. -/
inductive ColumnOverflow (m : Module) (n : Nat) : Prop
  | start {lengths : List Nat} : lengths ∈ m.memberCounts → n ∈ startsFrom 1 lengths →
      ¬ (n < 2 ^ 32 ∧ (lengths.sum ≤ 0xFFFF → n < 2 ^ 16)) → ColumnOverflow m n
  | texts : 2 ^ 32 < HeapItem.textSpace m.items → ColumnOverflow m n
  | guids : 2 ^ 32 ≤ HeapItem.guidCount m.items → ColumnOverflow m n
  | blobs : 2 ^ 32 < HeapItem.blobSpace m.items → ColumnOverflow m n

theorem Writable.not_columnOverflow {m : Module} (writable : m.Writable) (n : Nat) : ¬ m.ColumnOverflow n := by
  intro overflow
  cases overflow with
  | start own inside beyond =>
    unfold memberCounts at own
    simp only [List.mem_cons, List.not_mem_nil, or_false] at own
    rcases own with rfl | rfl | rfl
    · exact beyond (writable.fieldStarts n inside)
    · exact beyond (writable.methodStarts n inside)
    · exact beyond (writable.paramStarts n inside)
  | texts more => exact Nat.not_le.mpr more writable.items.texts
  | guids more => exact Nat.not_lt.mpr more writable.items.guids
  | blobs more => exact Nat.not_le.mpr more writable.items.blobs

end Module

namespace ModuleDraft

/-- The layout of the tables of a module whose heaps are those of a draft. -/
def layout (m : Module) (d : ModuleDraft) : Layout :=
  .ofCounts m.rowCounts (heapSizes d.strings.isLarge d.guids.isLarge d.blobs.isLarge)

variable {m : Module} {items : List HeapItem} {limit : Nat} {d : ModuleDraft}

theorem wide_layout (m : Module) (d : ModuleDraft) : (layout m d).wideStrings = d.strings.isLarge ∧
    (layout m d).wideGuids = d.guids.isLarge ∧ (layout m d).wideBlobs = d.blobs.isLarge := by
  have all : ∀ strings guids blobs, (heapSizes strings guids blobs &&& Layout.largeStrings != 0) = strings ∧
      (heapSizes strings guids blobs &&& Layout.largeGuids != 0) = guids ∧
        (heapSizes strings guids blobs &&& Layout.largeBlobs != 0) = blobs := by decide
  exact all _ _ _

theorem rows_of_layout (m : Module) (d : ModuleDraft) (t : Table) :
    (layout m d).rows t = if t ∈ Table.ofModule then m.rows t else 0 := by
  have tables : (Table.ofModule.map fun t => (t, m.rows t)).map (·.1) = Table.ofModule := by
    rw [List.map_map]
    exact List.map_id' _
  have distinct : ((Table.ofModule.map fun t => (t, m.rows t)).map (·.1)).Nodup := by
    rw [tables]
    decide
  have whole := Layout.ofCounts_filter distinct (heapSizes d.strings.isLarge d.guids.isLarge d.blobs.isLarge)
  unfold layout Module.rowCounts
  rw [whole, Layout.rows_ofCounts distinct]
  cases t <;> rfl

theorem takes_string (room : Room items limit 0 d) (space : HeapItem.textSpace items ≤ 2 ^ 32) {index : Nat} {text : String}
    (has : d.HasString index text) : ∃ bytes, (layout m d).writeColumn .string index = .ok bytes := by
  have inside := has.lt
  have most := room.strings.length_le
  unfold HeapItem.textSpace at space
  refine Layout.exists_column (fun narrow => ?_) (by omega)
  rw [(wide_layout m d).1, StringHeapBuilder.isLarge, decide_eq_false_iff_not] at narrow
  omega

theorem takes_blob (room : Room items limit 0 d) (space : HeapItem.blobSpace items ≤ 2 ^ 32) {index : Nat} {blob : Bytes}
    (has : d.HasBlob index blob) : ∃ bytes, (layout m d).writeColumn .blob index = .ok bytes := by
  have inside := has.lt
  have most := room.blobs.length_le
  unfold HeapItem.blobSpace at space
  refine Layout.exists_column (fun narrow => ?_) (by omega)
  rw [(wide_layout m d).2.2, BlobHeapBuilder.isLarge, decide_eq_false_iff_not] at narrow
  omega

theorem takes_guid (room : Room items limit 0 d) (few : HeapItem.guidCount items < 2 ^ 32) {index : Nat} {guid : Guid}
    (has : d.HasGuid index guid) : ∃ bytes, (layout m d).writeColumn .guid index = .ok bytes := by
  have inside := has.le
  have most := room.guids.length_le
  unfold HeapItem.guidCount at few
  refine Layout.exists_column (fun narrow => ?_) (by omega)
  rw [(wide_layout m d).2.1, GuidHeapBuilder.isLarge, decide_eq_false_iff_not] at narrow
  omega

/-- A null column for identifiers. -/
theorem takes_noGuid : ∃ bytes, (layout m d).writeColumn .guid (0 : Nat) = .ok bytes :=
  Layout.exists_column_small _ (Nat.two_pow_pos 16)

theorem takes_reference {kind : CodedKind} {token : Token} {index : CodedIndex} (has : HasReference m kind token index) :
    ∃ bytes, (layout m d).writeColumn (.coded kind) index = .ok bytes := by
  obtain ⟨same, row, -, candidate⟩ := CodedIndex.ofToken_eq_ok has.coded
  have named : token.table? = some index.table := by
    rw [← same]
    exact Token.table?_ofRow _ _
  have contained := has.contained
  unfold Module.contains at contained
  rw [named] at contained
  have inside : token.row ≤ m.rows index.table := of_decide_eq_true (Bool.and_eq_true_iff.mp contained).2
  have stored : (layout m d).rows index.table = m.rows index.table := by
    have all : ∀ t ∈ kind.tables, (if t ∈ Table.ofModule then m.rows t else 0) = m.rows t := by
      cases kind <;> simp [CodedKind.tables, Table.ofModule, Module.rows]
    rw [rows_of_layout, all _ candidate]
  apply Layout.exists_coded candidate
  rw [stored, row]
  exact inside

theorem takes_baseType {token : Token} {index : CodedIndex} (has : HasBaseType m token index) :
    ∃ bytes, (layout m d).writeColumn (.coded .typeDefOrRef) index = .ok bytes := by
  unfold HasBaseType at has
  split at has
  · subst has
    exact Layout.exists_coded (by decide) (Nat.zero_le _)
  · exact takes_reference has

theorem takes_start {t : Table} {lengths : List Nat} {start : Nat}
    (fits : start < 2 ^ 32 ∧ (lengths.sum ≤ 0xFFFF → start < 2 ^ 16)) (member : t ∈ Table.ofModule)
    (rows : m.rows t = lengths.sum) : ∃ bytes, (layout m d).writeColumn (.row t) start = .ok bytes := by
  obtain ⟨small, narrow⟩ := fits
  refine Layout.exists_column (fun short => narrow ?_) small
  rw [Layout.wideRows, decide_eq_false_iff_not, rows_of_layout, if_pos member, rows] at short
  omega

section

variable {reason : Error → Prop} (overflows : ∀ {n}, m.ColumnOverflow n → reason (.malformed (.columnOverflow n)))
include overflows

theorem tries_string (room : Room m.items limit 0 d) {index : Nat} {text : String} (has : d.HasString index text) :
    FailsWith reason ((layout m d).writeColumn .string index) := by
  by_cases space : HeapItem.textSpace m.items ≤ 2 ^ 32
  · exact Layout.fails_of_exists (takes_string room space has)
  · exact Layout.column_fails fun _ => overflows (.texts (Nat.lt_of_not_le space))

theorem tries_blob (room : Room m.items limit 0 d) {index : Nat} {blob : Bytes} (has : d.HasBlob index blob) :
    FailsWith reason ((layout m d).writeColumn .blob index) := by
  by_cases space : HeapItem.blobSpace m.items ≤ 2 ^ 32
  · exact Layout.fails_of_exists (takes_blob room space has)
  · exact Layout.column_fails fun _ => overflows (.blobs (Nat.lt_of_not_le space))

theorem tries_guid (room : Room m.items limit 0 d) {index : Nat} {guid : Guid} (has : d.HasGuid index guid) :
    FailsWith reason ((layout m d).writeColumn .guid index) := by
  by_cases few : HeapItem.guidCount m.items < 2 ^ 32
  · exact Layout.fails_of_exists (takes_guid room few has)
  · exact Layout.column_fails fun _ => overflows (.guids (Nat.le_of_not_lt few))

theorem tries_start {t : Table} {lengths : List Nat} {start : Nat} (own : lengths ∈ m.memberCounts)
    (member : t ∈ Table.ofModule) (rows : m.rows t = lengths.sum) (inside : start ∈ startsFrom 1 lengths) :
    FailsWith reason ((layout m d).writeColumn (.row t) start) := by
  by_cases fits : start < 2 ^ 32 ∧ (lengths.sum ≤ 0xFFFF → start < 2 ^ 16)
  · exact Layout.fails_of_exists (takes_start fits member rows)
  · exact Layout.column_fails fun _ => overflows (.start own inside fits)

end

end ModuleDraft

namespace ModuleRows

open ModuleDraft

variable {m : Module} {rows : ModuleRows} {items : List HeapItem} {limit : Nat} {d : ModuleDraft}

/-- All values of the rows fit the columns of the tables, unless there are too many for the heaps or rows. -/
theorem Describes.tries {reason : Error → Prop} (described : rows.Describes m d) (room : Room m.items limit 0 d)
    (overflows : ∀ {n}, m.ColumnOverflow n → reason (.malformed (.columnOverflow n))) :
    ∀ table ∈ rows.tables, ∀ row ∈ table.2, (layout m d).Tries reason table.1.columns row := by
  have each : ∀ {ρ : Type} [TableRow ρ] {rows : List ρ},
      (∀ row ∈ rows, (layout m d).Tries reason (TableRow.table ρ).columns (TableRow.toValues row)) →
      ∀ values ∈ (of rows).2, (layout m d).Tries reason (of rows).1.columns values := by
    intro ρ _ rows all values member
    obtain ⟨row, inside, rfl⟩ := List.mem_map.mp member
    exact all row inside
  have text {index : Nat} {t : String} (has : d.HasString index t) := tries_string overflows room has
  have blob {index : Nat} {b : Bytes} (has : d.HasBlob index b) := tries_blob overflows room has
  have word : ∀ n, FailsWith reason ((layout m d).writeColumn .word n) := fun n => .ok _
  have double : ∀ n, FailsWith reason ((layout m d).writeColumn .double n) := fun n => .ok _
  have params : m.rows .param = ((m.types.flatMap (·.methods)).map (·.params.length)).sum := by
    rw [← methodList_map_snd, List.map_map]
    rfl
  unfold tables
  simp only [List.forall_mem_cons, List.not_mem_nil, false_imp_iff, implies_true, and_true]
  refine ⟨each fun row member => ?_, each fun row member => ?_, each fun row member => ?_, each fun row member => ?_,
    each fun row member => ?_, each fun row member => ?_, each fun row member => ?_, each fun row member => ?_,
    each fun row member => ?_, each fun row member => ?_⟩
  · rw [List.mem_singleton] at member
    subst member
    have has := described.module
    refine ⟨word _, text has.name, tries_guid overflows room has.mvid, ?_, ?_, trivial⟩
    · rw [has.unedited.1]
      exact Layout.fails_of_exists takes_noGuid
    · rw [has.unedited.2]
      exact Layout.fails_of_exists takes_noGuid
  · obtain ⟨r, has⟩ := exists_of_mem_right described.typeRefs member
    exact ⟨Layout.fails_of_exists (takes_reference has.scope), text has.name, text has.namespaceName, trivial⟩
  · obtain ⟨typeRows, inside, rfl⟩ := List.mem_map.mp member
    obtain ⟨t, has⟩ := exists_of_mem_right described.types inside
    have field := List.mem_map_of_mem (f := fun rows : TypeRows => rows.row.firstField) inside
    have method := List.mem_map_of_mem (f := fun rows : TypeRows => rows.row.firstMethod) inside
    rw [described.starts.fields] at field
    rw [described.starts.methods] at method
    exact ⟨double _, text has.name, text has.namespaceName, Layout.fails_of_exists (takes_baseType has.baseType),
      tries_start overflows List.mem_cons_self (by decide) rfl field,
      tries_start overflows (List.mem_cons_of_mem _ List.mem_cons_self) (by decide) rfl method, trivial⟩
  · obtain ⟨f, has⟩ := exists_of_mem_right described.fields member
    exact ⟨word _, text has.name, blob has.signature, trivial⟩
  · obtain ⟨methodRows, inside, rfl⟩ := List.mem_map.mp member
    obtain ⟨method, has⟩ := exists_of_mem_right described.methods inside
    have param := List.mem_map_of_mem (f := fun rows : MethodRows => rows.row.firstParam) inside
    rw [ModuleRows.methods, described.starts.params] at param
    exact ⟨double _, word _, word _, text has.name, blob has.signature,
      tries_start overflows (List.mem_cons_of_mem _ (List.mem_cons_of_mem _ List.mem_cons_self)) (by decide) params
        param, trivial⟩
  · obtain ⟨p, has⟩ := exists_of_mem_right described.params member
    exact ⟨word _, word _, text has.name, trivial⟩
  · obtain ⟨r, has⟩ := exists_of_mem_right described.memberRefs member
    exact ⟨Layout.fails_of_exists (takes_reference has.parent), text has.name, blob has.signature, trivial⟩
  · obtain ⟨signature, has⟩ := exists_of_mem_right described.signatures member
    exact ⟨blob has, trivial⟩
  · obtain ⟨a, has⟩ := exists_of_mem_right described.assembly member
    exact ⟨double _, word _, word _, word _, word _, double _, blob has.publicKey, text has.name, text has.culture, trivial⟩
  · obtain ⟨a, has⟩ := exists_of_mem_right described.assemblyRefs member
    exact ⟨word _, word _, word _, word _, double _, blob has.key, text has.name, text has.culture, blob has.hash, trivial⟩

theorem Describes.counts_layout (described : rows.Describes m d) :
    ∀ table ∈ rows.tables, (layout m d).rows table.1 = table.count := by
  intro table member
  have counted : (table.1, table.count) ∈ counts rows.tables := List.mem_map_of_mem member
  rw [described.counts_tables] at counted
  obtain ⟨t, own, same⟩ := List.mem_map.mp counted
  obtain ⟨rfl, rows⟩ := Prod.mk.inj same
  rw [rows_of_layout, if_pos own, rows]

theorem Describes.attempt_addTo {reason : Error → Prop} (described : rows.Describes m d)
    (tries : ∀ table ∈ rows.tables, ∀ row ∈ table.2, (layout m d).Tries reason table.1.columns row) :
    Attempt (fun _ => True) reason (rows.addTo { layout := layout m d }) := by
  have ascending : rows.tables.Pairwise fun d e => d.1.number < e.1.number := by
    have all : (rows.tables.map (·.1)).Pairwise fun s t => s.number < t.number := by
      rw [← tables_counts, described.counts_tables, List.map_map]
      have numbers : Table.ofModule.map (Prod.fst ∘ fun t => (t, m.rows t)) = Table.ofModule := List.map_id' _
      rw [numbers]
      decide
    rw [List.pairwise_map] at all
    exact all
  have start : TableStreamBuilder.Before (layout m d) 0 { layout := layout m d } := ⟨rfl, fun _ none => by cases none⟩
  rw [addTo_eq]
  exact TableStreamBuilder.attempt_addAll start ascending (fun _ _ => Nat.zero_le _) described.counts_layout tries

/-- Tables that fit the layout go into one stream. -/
theorem Describes.exists_addTo (described : rows.Describes m d)
    (takes : ∀ table ∈ rows.tables, ∀ row ∈ table.2, (layout m d).Takes table.1.columns row) :
    ∃ b, rows.addTo { layout := layout m d } = .ok () b := by
  have ends : Attempt _ (fun _ => False) _ := described.attempt_addTo
    fun table member row inside => (takes table member row inside).tries
  obtain ⟨_, b, run, -⟩ := ends.exists_ok fun _ => id
  exact ⟨b, run⟩

end ModuleRows

end CilWeaver
