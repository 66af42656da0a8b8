import CilWeaver.Debug.CodeView
import CilWeaver.Debug.PdbStream
import CilWeaver.Proofs.ParsedImages
import CilWeaver.Proofs.Roots
import CilWeaver.Proofs.Rows

/-!
The image of a module is read as its parts: the heaps, the code and the rows of the tables. The records that tie it to
its symbol image are read as they were written.
-/

namespace CilWeaver

/-! The records that tie a module image to its symbol image -/

section

open Reader Step

theorem ImageId.ofBytes_bytes (id : ImageId) : ImageId.ofBytes id.bytes = id := by
  have bytes := ImageId.bytes_ofBytes id.length_eq
  cases h : ImageId.ofBytes id.bytes with
  | mk found length =>
    rw [h] at bytes
    cases id
    cases bytes
    rfl

theorem ImageId.reads (id : ImageId) (missing : Defect) (position : Nat) :
    Reads (ImageId.read missing) position id.bytes id := by
  have read := ((reads_take_of_length position id.length_eq).orDefect missing).map ImageId.ofBytes
  rw [ImageId.ofBytes_bytes] at read
  exact read

/-- A text without zero characters, up to the zero byte behind it. -/
theorem Reader.reads_zeroTerminated {text : String} (noNul : '\x00' ∉ text.toList) (position : Nat) :
    Reads zeroTerminated position (utf8Bytes text ++ [0]) text := by
  intro rest
  have bytes : (utf8Bytes text ++ 0 :: rest).takeWhile (· != 0) = utf8Bytes text :=
    takeWhile_nonzero (Utf8.zero_notMem_encode noNul) rest
  have decoded : Utf8.decode (utf8Bytes text) = .ok text.toList := Utf8.decode_encode _
  rw [List.append_assoc, List.singleton_append, List.length_append]
  unfold zeroTerminated
  simp only [bytes, List.drop_left, decoded, String.ofList_toList]
  rfl

namespace CodeViewRecord

/-- The record is read back from its bytes, also when more bytes follow. -/
theorem parse_build (r : CodeViewRecord) (noNul : '\x00' ∉ r.path.toList) (rest : Bytes) :
    parse (r.build ++ rest) = .ok r := by
  have found : (signature != signature) = false := by decide
  have reads : Reads read 0 r.build r := by
    have shape : r.build = u32Bytes signature ++ (r.id.bytes ++ (u32Bytes r.age ++
        (utf8Bytes r.path ++ [0]))) := by
      rw [build]
      simp only [List.append_assoc]
    rw [shape]
    refine ((reads_u32 0 signature).orDefect _).bind ?_
    simp only [found, Bool.false_eq_true, ↓reduceIte]
    exact (ImageId.reads r.id _ _).bind ((reads_u32 _ r.age).bind
      ((reads_zeroTerminated noNul _).map fun path => (⟨r.id, r.age, path⟩ : CodeViewRecord)))
  exact reads.parse rest

/-- A path is read up to its first zero character. -/
theorem parse_build_beforeNul (r : CodeViewRecord) (rest : Bytes) :
    parse (r.build ++ rest) = .ok { r with path := beforeNul r.path } := by
  obtain ⟨more, same⟩ := utf8Bytes_split r.path rest
  have bytes : r.build ++ rest = build { r with path := beforeNul r.path } ++ more := by
    simp only [build, List.append_assoc, List.singleton_append]
    rw [same]
  rw [bytes]
  exact parse_build { r with path := beforeNul r.path } (nul_notMem_beforeNul r.path) more

end CodeViewRecord

namespace PdbStream

/-- The rows are those of tables of a module image, in the order of the tables. -/
structure Ordered (s : PdbStream) : Prop where
  ascending : s.rows.Pairwise fun a b => a.1.number < b.1.number
  ofModule : ∀ row ∈ s.rows, row.1 ∈ Table.ofModule

theorem reads_rows {s : PdbStream} (ordered : Ordered s) (position : Nat) :
    Reads ((s.rows.map fun row => row.1.number).mapM readRows) position
      (s.rows.flatMap fun row => u32Bytes row.2) s.rows := by
  have each : ∀ row ∈ s.rows, ∀ position, Reads (readRows row.1.number) position (u32Bytes row.2) row := by
    intro row member position
    have found : (Table.ofNumber? row.1.number).filter Table.ofModule.contains = some row.1 := by
      rw [Table.ofNumber?_number, Option.filter_some, List.contains_iff_mem.mpr (ordered.ofModule row member)]
      rfl
    unfold readRows
    simp only [found]
    exact (reads_u32 position row.2).map fun count => (row.1, count)
  have all := @reads_mapM _ _ _ _ (fun row => row) _ each position
  rw [List.map_id'] at all
  rw [List.mapM_map]
  exact all

theorem parse_build (s : PdbStream) (ordered : Ordered s) (rest : Bytes) : parse (s.build ++ rest) = .ok s := by
  have reads : Reads read 0 s.build s := by
    have shape : s.build = s.id.bytes ++ (u32Bytes s.entryPoint.value ++ (u64Bytes s.mask ++
        s.rows.flatMap fun row => u32Bytes row.2)) := by
      rw [build]
      simp only [List.append_assoc]
    have bits : TableStream.setBits s.mask = s.rows.map fun row => row.1.number :=
      TableStreamBuilder.setBits_foldl_mask ordered.ascending
    rw [shape]
    refine (ImageId.reads s.id _ 0).bind ((reads_u32 _ s.entryPoint.value).bind ((reads_u64 _ s.mask).bind ?_))
    rw [bits]
    exact (reads_rows ordered _).map fun rows => (⟨s.id, s.entryPoint, rows⟩ : PdbStream)
  exact reads.parse rest

/-- A table has the one count that the stream lists for it. -/
theorem rows?_eq_some_iff {s : PdbStream} (ordered : Ordered s) {table : Table} {count : UInt32} :
    s.rows? table = some count ↔ (table, count) ∈ s.rows := by
  unfold rows?
  rw [List.lookup_eq_some_iff]
  constructor
  · rintro ⟨before, after, same, -⟩
    rw [same]
    exact List.mem_append_right before List.mem_cons_self
  · intro member
    obtain ⟨before, after, same⟩ := List.append_of_mem member
    refine ⟨before, after, same, fun row earlier => bne_iff_ne.mpr fun equal => ?_⟩
    have ascending := ordered.ascending
    rw [same, List.pairwise_append] at ascending
    have less := ascending.2.2 row earlier (table, count) List.mem_cons_self
    rw [equal] at less
    exact Nat.lt_irrefl _ less

theorem rows?_eq_none_iff {s : PdbStream} {table : Table} : s.rows? table = none ↔ ∀ count, (table, count) ∉ s.rows := by
  unfold rows?
  rw [List.lookup_eq_none_iff]
  constructor
  · intro other count member
    exact bne_iff_ne.mp (other (table, count) member) rfl
  · rintro missing ⟨listed, count⟩ member
    refine bne_iff_ne.mpr ?_
    rintro rfl
    exact missing count member

end PdbStream

/-- Both records are read as they were built, whatever stands behind them. The counts of a stream are stored without the
    numbers of their tables, and each table gets its own. -/
theorem records_inverse :
    (∀ r : CodeViewRecord, '\x00' ∉ r.path.toList → ∀ rest, CodeViewRecord.parse (r.build ++ rest) = .ok r) ∧
    ∀ s : PdbStream, s.Ordered → (∀ rest, PdbStream.parse (s.build ++ rest) = .ok s) ∧
      ∀ table, (∀ count, s.rows? table = some count ↔ (table, count) ∈ s.rows) ∧
        (s.rows? table = none ↔ ∀ count, (table, count) ∉ s.rows) := by
  refine ⟨CodeViewRecord.parse_build, fun s ordered => ⟨s.parse_build ordered, fun table => ⟨fun count => ?_, ?_⟩⟩⟩
  · exact PdbStream.rows?_eq_some_iff ordered
  · exact PdbStream.rows?_eq_none_iff

/-- A record, and the counts of the first and the last table. -/
theorem records_inverse_sample :
    CodeViewRecord.parse (CodeViewRecord.build ⟨.zero, 1, "a.pdb"⟩ ++ [0, 0]) = .ok ⟨.zero, 1, "a.pdb"⟩ ∧
      PdbStream.parse (PdbStream.build ⟨.zero, .null, [(.module, 1), (.assemblyRef, 7)]⟩ ++ [9, 0, 0]) =
        .ok ⟨.zero, .null, [(.module, 1), (.assemblyRef, 7)]⟩ ∧
      PdbStream.rows? ⟨.zero, .null, [(.module, 1), (.assemblyRef, 7)]⟩ .assemblyRef = some 7 ∧
      PdbStream.rows? ⟨.zero, .null, [(.module, 1), (.assemblyRef, 7)]⟩ .typeDef = none := by
  obtain ⟨record, stream⟩ := records_inverse
  obtain ⟨parsed, counts⟩ := stream ⟨.zero, .null, [(.module, 1), (.assemblyRef, 7)]⟩ ⟨by decide, by decide⟩
  exact ⟨record ⟨.zero, 1, "a.pdb"⟩ (by decide) [0, 0], parsed [9, 0, 0], ((counts .assemblyRef).1 7).mpr (by decide),
    (counts .typeDef).2.mpr (by simp)⟩

end

/-! Images -/

open Step TableRows

/-- What the writer of a module ends with: rows that describe the module, and their tables. -/
structure Written (m : Module) (rows : ModuleRows) (d : ModuleDraft) (b : TableStreamBuilder) : Prop where
  described : rows.Describes m d
  sound : d.Sound
  layout : b.layout = .ofCounts m.rowCounts (heapSizes d.strings.isLarge d.guids.isLarge d.blobs.isLarge)
  contains : b.Contains (filled rows.tables)

namespace ModuleStreams

def ofDraft (rows : ModuleRows) (d : ModuleDraft) (b : TableStreamBuilder) : ModuleStreams :=
  { tables := b.build, strings := d.strings.build, userStrings := d.userStrings.build,
    guids := d.guids.build, blobs := d.blobs.build, il := d.il, offsets := rows.methods.map (·.offsets?) }

theorem ofModule_eq_ok {m : Module} {streams : ModuleStreams} (h : ofModule m = .ok streams) :
    ∃ rows d b, Written m rows d b ∧ streams = ofDraft rows d b := by
  unfold ofModule at h
  split at h
  · cases h
  · rename_i rows d run
    obtain ⟨sound, -, describes⟩ := ModuleRows.writes_ofModule m {} rows d ModuleDraft.sound_empty run
    obtain ⟨tables, stream, h⟩ := Outcome.bind_eq_ok.mp h
    unfold TableStreamBuilder.stream at stream
    split at stream
    · rename_i b added
      obtain ⟨layout, contains⟩ := ModuleRows.addTo_ok added
      refine ⟨rows, d, b, ⟨describes d (ModuleDraft.Grows.refl d), sound, layout, contains⟩, ?_⟩
      rw [← Outcome.pure_eq_ok.mp h, ← Except.ok.inj stream]
      rfl
    · cases stream

/-- The streams of an image with their names. -/
def named (s : ModuleStreams) (record? : Option CodeViewRecord) : List (String × Bytes) :=
  [(StreamName.tables, s.tables), (StreamName.strings, s.strings),
    (StreamName.userStrings, s.userStrings), (StreamName.guids, s.guids),
    (StreamName.blobs, s.blobs), (StreamName.il, s.il)] ++
      record?.toList.map fun record => (StreamName.codeView, record.build)

theorem streams_named (s : ModuleStreams) (record? : Option CodeViewRecord) :
    Root.Streams (s.named record?) := by
  cases record? with
  | none => exact ⟨by simp [named, StreamName.known], by simp [named]; decide, List.cons_ne_nil _ _, by simp [named]⟩
  | some record =>
    exact ⟨by simp [named, StreamName.known], by simp [named]; decide, List.cons_ne_nil _ _, by simp [named]⟩

section

variable (s : ModuleStreams) (record? : Option CodeViewRecord)

theorem lookup_tables : (s.named record?).lookup StreamName.tables = some s.tables := rfl

theorem lookup_strings : (s.named record?).lookup StreamName.strings = some s.strings := by
  simp [named, StreamName.tables, StreamName.strings, List.lookup_cons]

theorem lookup_userStrings : (s.named record?).lookup StreamName.userStrings = some s.userStrings := by
  simp [named, StreamName.tables, StreamName.strings, StreamName.userStrings, List.lookup_cons]

theorem lookup_guids : (s.named record?).lookup StreamName.guids = some s.guids := by
  simp [named, StreamName.tables, StreamName.strings, StreamName.userStrings, StreamName.guids,
    List.lookup_cons]

theorem lookup_blobs : (s.named record?).lookup StreamName.blobs = some s.blobs := by
  simp [named, StreamName.tables, StreamName.strings, StreamName.userStrings, StreamName.guids,
    StreamName.blobs, List.lookup_cons]

theorem lookup_il : (s.named record?).lookup StreamName.il = some s.il := by
  simp [named, StreamName.tables, StreamName.strings, StreamName.userStrings, StreamName.guids,
    StreamName.blobs, StreamName.il, List.lookup_cons]

theorem lookup_codeView :
    (s.named record?).lookup StreamName.codeView = record?.map CodeViewRecord.build := by
  cases record? <;> simp [named, StreamName.tables, StreamName.strings, StreamName.userStrings,
    StreamName.guids, StreamName.blobs, StreamName.il, StreamName.codeView, List.lookup_cons]

theorem lookup_pdb : (s.named record?).lookup StreamName.pdb = none := by
  cases record? <;> simp [named, StreamName.tables, StreamName.strings, StreamName.userStrings,
    StreamName.guids, StreamName.blobs, StreamName.il, StreamName.codeView, StreamName.pdb, List.lookup_cons]

end

end ModuleStreams

namespace ModuleImage

/-- The image that is read of a module with these rows, heaps and tables. -/
def ofDraft (m : Module) (rows : ModuleRows) (d : ModuleDraft) (b : TableStreamBuilder)
    (record? : Option CodeViewRecord) : ModuleImage :=
  { version := m.runtimeVersion
    strings := ⟨d.strings.build⟩
    userStrings? := some ⟨d.userStrings.build⟩
    blobs := ⟨d.blobs.build⟩
    guids := ⟨d.guids.build⟩
    il := padTo 4 d.il
    codeView? := record?
    layout := b.layout
    moduleRow := rows.module
    assembly? := rows.assembly.head?
    typeRefs := rows.typeRefs
    typeDefs := rows.types.map (·.row)
    fields := rows.types.flatMap (·.fields)
    methods := rows.methods.map (·.row)
    params := rows.methods.flatMap (·.params)
    memberRefs := rows.memberRefs
    signatures := rows.signatures
    assemblyRefs := rows.assemblyRefs }

end ModuleImage

section

variable {m : Module} {rows : ModuleRows} {d : ModuleDraft} {b : TableStreamBuilder}

theorem layout_counts (written : Written m rows d b) : Layout.ofCounts (counts (filled rows.tables))
    b.layout.heapSizes = b.layout := by
  rw [written.layout, counts_filled, written.described.counts_tables]
  rfl

/-- The numbers of rows in the layout are those of the module, except for the symbols. -/
theorem rows_layout (written : Written m rows d b) (t : Table) :
    b.layout.rows t = if t ∈ Table.ofModule then m.rows t else 0 := by
  have distinct := written.described.distinct
  rw [← tables_counts] at distinct
  rw [← layout_counts written, counts_filled, Layout.ofCounts_filter distinct, Layout.rows_ofCounts distinct,
    written.described.counts_tables]
  cases t <;> rfl

/-- The record that is read, whose path ends at its first zero character. -/
def recordRead? (record? : Option CodeViewRecord) : Option CodeViewRecord :=
  record?.map fun record => { record with path := beforeNul record.path }

theorem recordRead?_eq {record? : Option CodeViewRecord} (noNul : ∀ record ∈ record?, '\x00' ∉ record.path.toList) :
    recordRead? record? = record? := by
  cases record? with
  | none => rfl
  | some record => rw [recordRead?, Option.map_some, beforeNul_eq (noNul record rfl)]

theorem parse_codeView (record? : Option CodeViewRecord) :
    (record?.map (padTo 4 ∘ CodeViewRecord.build)).mapM CodeViewRecord.parse = .ok (recordRead? record?) := by
  cases record? with
  | none => rfl
  | some record =>
    have parsed := record.parse_build_beforeNul (zeros (padding 4 record.build.length))
    change (do
      let r ← CodeViewRecord.parse (padTo 4 record.build)
      pure (some r)) = Except.ok (recordRead? (some record))
    rw [padTo, parsed]
    rfl

theorem parse_strings (written : Written m rows d b) :
    StringHeap.parse (padTo 4 (ModuleStreams.ofDraft rows d b).strings) = .ok ⟨d.strings.build⟩ := by
  change StringHeap.parse (padTo 4 (padTo 4 d.strings.data)) = _
  rw [padTo_padTo, StringHeap.parse, if_pos (head?_padTo written.sound.strings.start)]
  rfl

theorem parse_userStrings (written : Written m rows d b) :
    (some (padTo 4 (ModuleStreams.ofDraft rows d b).userStrings)).mapM UserStringHeap.parse =
      .ok (some ⟨d.userStrings.build⟩) := by
  have heap : UserStringHeap.parse (padTo 4 (padTo 4 d.userStrings.data)) = .ok ⟨d.userStrings.build⟩ := by
    rw [padTo_padTo, UserStringHeap.parse, if_pos (head?_padTo written.sound.userStrings.start)]
    rfl
  change (do
    let heap ← UserStringHeap.parse (padTo 4 (padTo 4 d.userStrings.data))
    pure (some heap)) = _
  rw [heap]
  rfl

theorem checkCode_il (written : Written m rows d b) :
    ModuleImage.checkCode (padTo 4 (ModuleStreams.ofDraft rows d b).il) = .ok () := by
  obtain ⟨tail, same⟩ := written.sound.il
  have start : (padTo 4 d.il).take ModuleImage.reservedCode = zeros ModuleImage.reservedCode := by
    rw [padTo, ← same, List.append_assoc]
    rfl
  change ModuleImage.checkCode (padTo 4 d.il) = _
  rw [ModuleImage.checkCode, start, if_pos (by simp)]

theorem padTo_tables : padTo 4 (ModuleStreams.ofDraft rows d b).tables = b.build := padTo_padTo _

theorem optionalAssembly_eq (described : rows.Describes m d) :
    ModuleImage.optionalAssembly rows.assembly = .ok rows.assembly.head? := by
  have count := described.assembly.length_eq
  cases shape : rows.assembly with
  | nil => rfl
  | cons row others =>
    cases others with
    | nil => rfl
    | cons other others =>
      rw [shape] at count
      cases present : m.assembly? with
      | none => rw [present] at count; simp at count
      | some a => rw [present] at count; simp at count

/-- Reading the parts of an image comes down to reading its tables. -/
theorem parseParts_eq {version : String} {record? : Option CodeViewRecord} {data : Bytes} (written : Written m rows d b)
    (text : beforeNul version = m.runtimeVersion)
    (built : (ModuleStreams.ofDraft rows d b).image version record? = .ok data) (small : data.length < 2 ^ 32) :
    ∃ rest : TableStream → Result ModuleImage,
      ModuleImage.parseParts data = (TableStream.parse Table.ofModule b.build >>= rest) ∧
        rest (.ofBuilder b (filled rows.tables)) = .ok (ModuleImage.ofDraft m rows d b (recordRead? record?)) := by
  have streams := ModuleStreams.streams_named (ModuleStreams.ofDraft rows d b) record?
  have image : Root.build version ((ModuleStreams.ofDraft rows d b).named record?) = .ok data := built
  obtain ⟨root, parsed, version, stream⟩ : ∃ root, Root.parse data = .ok root ∧ root.version = m.runtimeVersion ∧
      ∀ name, root.stream? data name = (((ModuleStreams.ofDraft rows d b).named record?).lookup name).map (padTo 4) :=
    ⟨_, Root.parse_build_beforeNul image streams small, text, Root.stream?_ofStreams image⟩
  have found : (ModuleImage.ofDraft m rows d b (recordRead? record?)).Found data b.build root := by
    refine ⟨parsed, version, ?_, ⟨_, ?_, parse_strings written⟩, ⟨_, ?_, written.sound.blobs.parse_build⟩,
      ⟨_, ?_, d.guids.parse_build⟩, ?_, ?_, checkCode_il written, ?_, ?_⟩
    · rw [stream, ModuleStreams.lookup_pdb, Option.map_none]
    · rw [stream, ModuleStreams.lookup_strings, Option.map_some]
    · rw [stream, ModuleStreams.lookup_blobs, Option.map_some]
      rfl
    · rw [stream, ModuleStreams.lookup_guids, Option.map_some]
      rfl
    · rw [stream, ModuleStreams.lookup_userStrings, Option.map_some]
      exact parse_userStrings written
    · rw [stream, ModuleStreams.lookup_il, Option.map_some, Option.getD_some]
      rfl
    · rw [stream, ModuleStreams.lookup_codeView, Option.map_map]
      exact parse_codeView record?
    · rw [stream, ModuleStreams.lookup_tables, Option.map_some, padTo_tables]
  have typed := fun {ρ : Type} [TableRow ρ] (items : List ρ) (member : of items ∈ rows.tables) =>
    TableStream.rows_ofBuilder written.contains written.described.good written.described.distinct member
  obtain ⟨rest, same, last⟩ := found.parseParts_eq
  refine ⟨rest, same, last _ ⟨rfl, typed [rows.module] ?_, ⟨_, typed rows.assembly ?_, optionalAssembly_eq written.described⟩,
    typed rows.typeRefs ?_, typed (rows.types.map (·.row)) ?_, typed (rows.types.flatMap (·.fields)) ?_,
    typed (rows.methods.map (·.row)) ?_, typed (rows.methods.flatMap (·.params)) ?_, typed rows.memberRefs ?_,
    typed rows.signatures ?_, typed rows.assemblyRefs ?_⟩⟩
  all_goals simp [ModuleRows.tables]

theorem counts_mem (written : Written m rows d b) {t : TableRows} (member : t ∈ rows.tables) :
    t.1 ∈ Table.ofModule ∧ t.count = m.rows t.1 := by
  have pair : (t.1, t.count) ∈ counts rows.tables := List.mem_map_of_mem member
  rw [written.described.counts_tables] at pair
  obtain ⟨table, mem, same⟩ := List.mem_map.mp pair
  obtain ⟨rfl, count⟩ := Prod.mk.inj same
  exact ⟨mem, count.symm⟩

theorem parse_tables (written : Written m rows d b) (few : ∀ t ∈ Table.ofModule, m.rows t ≤ maxRows) :
    TableStream.parse Table.ofModule b.build = .ok (.ofBuilder b (filled rows.tables)) := by
  refine TableStream.parse_build written.contains (fun t mem => (written.described.good t (mem_of_filled mem)).columns)
    (fun t mem => (counts_mem written (mem_of_filled mem)).1) (fun t mem => ?_) (layout_counts written)
  obtain ⟨allowed, count⟩ := counts_mem written (mem_of_filled mem)
  rw [count]
  exact few t.1 allowed

/-- The tables of an image that is read have no more rows than tokens can name. -/
theorem rows_le_of_parse (written : Written m rows d b) (small : b.build.length < 2 ^ 32) {s : TableStream}
    (read : TableStream.parse Table.ofModule b.build = .ok s) : ∀ t ∈ Table.ofModule, m.rows t ≤ maxRows := by
  intro t allowed
  have columns : ∀ t ∈ filled rows.tables, t.1.columns ≠ [] := fun t mem =>
    (written.described.good t (mem_of_filled mem)).columns
  have bounds := TableStream.counts_le_of_parse written.contains columns
    (fun t mem => (counts_mem written (mem_of_filled mem)).1) small read
  by_cases none : m.rows t = 0
  · rw [none]
    exact Nat.zero_le _
  · have pair : (t, m.rows t) ∈ counts (filled rows.tables) := by
      rw [counts_filled, written.described.counts_tables]
      exact List.mem_filter.mpr ⟨List.mem_map_of_mem allowed, by simpa using Nat.pos_of_ne_zero none⟩
    obtain ⟨items, mem, same⟩ := List.mem_map.mp pair
    obtain ⟨rfl, count⟩ := Prod.mk.inj same
    rw [← count]
    exact bounds items mem

/-- A token is one of the image if it is one of the module, but for its symbols. -/
theorem contains_ofDraft (written : Written m rows d b) (record? : Option CodeViewRecord) (token : Token) :
    (ModuleImage.ofDraft m rows d b record?).contains token =
      (m.contains token && token.table?.any Table.ofModule.contains) := by
  unfold ModuleImage.contains Module.contains
  cases token.table? with
  | none => rfl
  | some t =>
    change (decide (1 ≤ token.row) && decide (token.row ≤ b.layout.rows t)) = _
    rw [rows_layout written t]
    by_cases allowed : t ∈ Table.ofModule
    · rw [if_pos allowed]
      simp [allowed]
    · rw [if_neg allowed]
      simp only [Option.any_some, List.contains_eq_mem, allowed, decide_false, Bool.and_false]
      by_cases zero : 1 ≤ token.row
      · simp only [zero, decide_true, Bool.true_and, decide_eq_false_iff_not]
        omega
      · simp only [zero, decide_false, Bool.false_and]

/-- A token of a table that is not one of the symbols. -/
theorem inModule_of_contains {token : Token} {t : Table} (contained : m.contains token = true)
    (named : token.table? = some t) (document : t ≠ .document) (method : t ≠ .methodDebugInformation) :
    token.table?.any Table.ofModule.contains = true := by
  unfold Module.contains at contained
  rw [named] at contained ⊢
  simp only [Bool.and_eq_true, decide_eq_true_eq] at contained
  cases t with
  | document => exact absurd rfl document
  | methodDebugInformation => exact absurd rfl method
  | moduleRef =>
    change 1 ≤ token.row ∧ token.row ≤ 0 at contained
    omega
  | typeSpec =>
    change 1 ≤ token.row ∧ token.row ≤ 0 at contained
    omega
  | _ => rfl

theorem table?_of_coded {kind : CodedKind} {token : Token} {index : CodedIndex}
    (coded : CodedIndex.ofToken kind token = .ok index) : token.table? = some index.table := by
  obtain ⟨same, -, -, -⟩ := CodedIndex.ofToken_eq_ok coded
  rw [← same]
  exact Token.table?_ofRow _ _

/-- The token of a reference is one of the image. -/
theorem contains_reference (written : Written m rows d b) (record? : Option CodeViewRecord) {kind : CodedKind}
    {token : Token} {index : CodedIndex} (has : ModuleDraft.HasReference m kind token index) :
    (ModuleImage.ofDraft m rows d b record?).contains index.token = true := by
  obtain ⟨same, -, -, candidate⟩ := CodedIndex.ofToken_eq_ok has.coded
  have named := table?_of_coded has.coded
  have owned : index.table ≠ .document ∧ index.table ≠ .methodDebugInformation := by
    have all : ∀ t ∈ kind.tables, t ≠ .document ∧ t ≠ .methodDebugInformation := by cases kind <;> decide
    exact all _ candidate
  rw [same, contains_ofDraft written, has.contained, inModule_of_contains has.contained named owned.1 owned.2]
  rfl

theorem isNull_of_reference {kind : CodedKind} {token : Token} {index : CodedIndex}
    (has : ModuleDraft.HasReference m kind token index) : index.isNull = false := by
  have contained := has.contained
  obtain ⟨-, row, -, -⟩ := CodedIndex.ofToken_eq_ok has.coded
  unfold Module.contains at contained
  rw [table?_of_coded has.coded] at contained
  simp only [Bool.and_eq_true, decide_eq_true_eq] at contained
  rw [CodedIndex.isNull, beq_eq_false_iff_ne, row]
  omega

theorem checkReference_ok (written : Written m rows d b) (record? : Option CodeViewRecord) {kind : CodedKind}
    {token : Token} {index : CodedIndex} (has : ModuleDraft.HasReference m kind token index) (nullable : Bool)
    (column : ReferenceColumn) :
    (ModuleImage.ofDraft m rows d b record?).checkReference nullable column index = .ok () := by
  unfold ModuleImage.checkReference
  rw [isNull_of_reference has, contains_reference written record? has]
  rfl

theorem fieldRuns_ofDraft (written : Written m rows d b) (record? : Option CodeViewRecord) :
    (ModuleImage.ofDraft m rows d b record?).fieldRuns = .ok (Run.ofLengths 0 (m.types.map (·.fields.length))) := by
  have starts := written.described.starts.fields
  have total := written.described.fields.length_eq
  rw [List.length_flatMap] at total
  have result := Run.ofStarts_startsFrom .fields (m.types.map (·.fields.length))
  rw [total, ← starts] at result
  unfold ModuleImage.fieldRuns ModuleImage.ofDraft
  dsimp only
  rw [List.map_map]
  exact result

theorem methodRuns_ofDraft (written : Written m rows d b) (record? : Option CodeViewRecord) :
    (ModuleImage.ofDraft m rows d b record?).methodRuns = .ok (Run.ofLengths 0 (m.types.map (·.methods.length))) := by
  have starts := written.described.starts.methods
  have total := written.described.methods.length_eq
  rw [List.length_flatMap] at total
  have result := Run.ofStarts_startsFrom .methods (m.types.map (·.methods.length))
  rw [total, ← starts] at result
  unfold ModuleImage.methodRuns ModuleImage.ofDraft
  dsimp only
  rw [List.map_map, List.length_map]
  exact result

theorem paramRuns_ofDraft (written : Written m rows d b) (record? : Option CodeViewRecord) :
    (ModuleImage.ofDraft m rows d b record?).paramRuns =
      .ok (Run.ofLengths 0 ((m.types.flatMap (·.methods)).map (·.params.length))) := by
  have starts := written.described.starts.params
  have total := written.described.params.length_eq
  rw [List.length_flatMap] at total
  have result := Run.ofStarts_startsFrom .params ((m.types.flatMap (·.methods)).map (·.params.length))
  rw [total, ← starts] at result
  unfold ModuleImage.paramRuns ModuleImage.ofDraft
  dsimp only
  rw [List.map_map]
  exact result

theorem checkIndices_ofDraft (written : Written m rows d b) (record? : Option CodeViewRecord) :
    (ModuleImage.ofDraft m rows d b record?).checkIndices = .ok () := by
  have described := written.described
  unfold ModuleImage.checkIndices
  refine Outcome.bind_eq_ok.mpr ⟨(), Outcome.forM_eq_ok.mpr ?_, Outcome.bind_eq_ok.mpr ⟨(), Outcome.forM_eq_ok.mpr ?_,
    Outcome.bind_eq_ok.mpr ⟨(), Outcome.forM_eq_ok.mpr ?_, ?_⟩⟩⟩
  · rintro ⟨row, position⟩ member
    obtain ⟨r, has⟩ := ModuleRows.exists_of_mem_right described.typeRefs (List.fst_mem_of_mem_zipIdx member)
    exact checkReference_ok written record? has.scope _ _
  · rintro ⟨row, position⟩ member
    obtain ⟨typeRows, mem, rfl⟩ := List.mem_map.mp (List.fst_mem_of_mem_zipIdx member)
    obtain ⟨t, has⟩ := ModuleRows.exists_of_mem_right described.types mem
    have baseType := has.baseType
    unfold ModuleDraft.HasBaseType at baseType
    split at baseType
    · dsimp only
      rw [baseType]
      rfl
    · exact checkReference_ok written record? baseType _ _
  · rintro ⟨row, position⟩ member
    obtain ⟨r, has⟩ := ModuleRows.exists_of_mem_right described.memberRefs (List.fst_mem_of_mem_zipIdx member)
    exact checkReference_ok written record? has.parent _ _
  · rw [fieldRuns_ofDraft written, Outcome.ok_bind, methodRuns_ofDraft written, Outcome.ok_bind,
      paramRuns_ofDraft written]
    rfl

theorem length_stream?_le {root : Root} {data stream : Bytes} {name : String}
    (h : root.stream? data name = some stream) : stream.length ≤ data.length := by
  unfold Root.stream? at h
  obtain ⟨header, -, rfl⟩ := Option.map_eq_some_iff.mp h
  rw [List.length_take, List.length_drop]
  omega

/-- The image of a module is read as its parts iff image and tables are small enough, and it is never
    read as anything else. -/
theorem parse_image_beforeNul {version : String} {record? : Option CodeViewRecord} {data : Bytes} {image : ModuleImage}
    (written : Written m rows d b) (text : beforeNul version = m.runtimeVersion)
    (built : (ModuleStreams.ofDraft rows d b).image version record? = .ok data) :
    ModuleImage.parse data = .ok image ↔ image = .ofDraft m rows d b (recordRead? record?) ∧ data.length < 2 ^ 32 ∧
      ∀ t ∈ Table.ofModule, m.rows t ≤ maxRows := by
  have streams := ModuleStreams.streams_named (ModuleStreams.ofDraft rows d b) record?
  have image' : Root.build version ((ModuleStreams.ofDraft rows d b).named record?) = .ok data := built
  unfold ModuleImage.parse
  rw [Outcome.bind_eq_ok]
  constructor
  · rintro ⟨found, parts, checks⟩
    have small : data.length < 2 ^ 32 := by
      unfold ModuleImage.parseParts at parts
      obtain ⟨root, parsed, -⟩ := Outcome.bind_eq_ok.mp parts
      exact Root.length_lt_of_parse image' streams parsed
    obtain ⟨rest, same, last⟩ := parseParts_eq written text built small
    rw [same] at parts
    obtain ⟨tables, parsed, others⟩ := Outcome.bind_eq_ok.mp parts
    have stream := Root.stream?_ofStreams image' StreamName.tables
    rw [ModuleStreams.lookup_tables, Option.map_some, padTo_tables] at stream
    have size := length_stream?_le stream
    have few := rows_le_of_parse written (Nat.lt_of_le_of_lt size small) parsed
    rw [parse_tables written few] at parsed
    cases parsed
    rw [last] at others
    cases others
    obtain ⟨⟨⟩, -, checks⟩ := Outcome.bind_eq_ok.mp checks
    exact ⟨(Outcome.pure_eq_ok.mp checks).symm, small, few⟩
  · rintro ⟨rfl, small, few⟩
    obtain ⟨rest, same, last⟩ := parseParts_eq written text built small
    refine ⟨_, ?_, Outcome.bind_eq_ok.mpr ⟨(), checkIndices_ofDraft written (recordRead? record?), rfl⟩⟩
    rw [same, parse_tables written few, Outcome.ok_bind, last]

theorem parse_image_eq_ok {record? : Option CodeViewRecord} {data : Bytes} {image : ModuleImage}
    (written : Written m rows d b) (noNul : '\x00' ∉ m.runtimeVersion.toList)
    (noNulPath : ∀ record ∈ record?, '\x00' ∉ record.path.toList)
    (built : (ModuleStreams.ofDraft rows d b).image m.runtimeVersion record? = .ok data) :
    ModuleImage.parse data = .ok image ↔
      image = .ofDraft m rows d b record? ∧ data.length < 2 ^ 32 ∧ ∀ t ∈ Table.ofModule, m.rows t ≤ maxRows := by
  have read := @parse_image_beforeNul m rows d b m.runtimeVersion record? data image written (beforeNul_eq noNul) built
  rwa [recordRead?_eq noNulPath] at read

/-- The image shows what the draft holds, whatever its version and its record. -/
theorem shows_of_image {version : String} {record? read? : Option CodeViewRecord} {data : Bytes}
    (built : (ModuleStreams.ofDraft rows d b).image version record? = .ok data)
    (small : data.length < 2 ^ 32) : (ModuleImage.ofDraft m rows d b read?).Shows d := by
  have image : Root.build version ((ModuleStreams.ofDraft rows d b).named record?) = .ok data := built
  refine ⟨fun index text has => has _, fun index text has => ?_, fun index blob has => has _,
    fun index guid has => ?_, List.prefix_append _ _, ?_⟩
  · have found : UserStringHeap.get ⟨d.userStrings.build⟩ index = .ok text := has _
    unfold ModuleImage.literal ModuleImage.ofDraft
    simp only [found]
  · have found := has []
    rw [List.append_nil] at found
    exact found
  · have stream := Root.stream?_ofStreams image StreamName.il
    rw [ModuleStreams.lookup_il, Option.map_some] at stream
    exact Nat.lt_of_le_of_lt (length_stream?_le stream) small

end

end CilWeaver
