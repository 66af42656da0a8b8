import CilWeaver.Image.ModuleImage
import CilWeaver.Image.SymbolImage
import CilWeaver.Proofs.Answers
import CilWeaver.Proofs.Heaps
import CilWeaver.Proofs.TypedTables

/-!
What parsing an image tells about its parts: they are those of its streams and tables, no table has more rows than
tokens can name, as many are read of it as the header of the stream says, and texts have no zero characters.
-/

namespace CilWeaver

open Step Reader

namespace TableStream

/-- A stream that is read has a header, and the places of the tables that are counted there. -/
theorem exists_header {allowed : List Table} {data : Bytes} {s : TableStream} (h : parse allowed data = .ok s) :
    ∃ counts c, readHeader allowed ⟨0, data⟩ = .ok (s.layout, s.valid, s.sorted, counts) c ∧
      place s.layout data.length c.position counts = .ok s.places ∧ s.data = data := by
  unfold parse EStateM.run Cursor.start at h
  cases run : readHeader allowed ⟨0, data⟩ with
  | error e c =>
    rw [run] at h
    cases h
  | ok found c =>
    rw [run] at h
    obtain ⟨places, placed, last⟩ := Outcome.bind_eq_ok.mp h
    cases Outcome.pure_eq_ok.mp last
    exact ⟨found.2.2.2, c, rfl, placed, rfl⟩

/-- A count of rows that tokens can name, of a table that is allowed. -/
def Countable (allowed : List Table) (count : Table × Nat) : Prop := count.1 ∈ allowed ∧ count.2 ≤ maxRows

theorem answers_readCount (allowed : List Table) (number : Nat) :
    (readCount allowed number).Answers (Countable allowed) := by
  unfold readCount
  cases named : (Table.ofNumber? number).filter allowed.contains with
  | none => exact .malformed _
  | some t =>
    have member : t ∈ allowed := List.contains_iff_mem.mp (Option.filter_eq_some_iff.mp named).2
    refine .bind fun rows => ?_
    by_cases many : maxRows < rows.toNat
    · simp only [many, ↓reduceIte]
      exact .malformed_bind _
    · simp only [many, ↓reduceIte]
      exact .pure ⟨member, Nat.le_of_not_lt many⟩

/-- The tables of a stream that is read. -/
structure Bounded (allowed : List Table) (s : TableStream) : Prop where
  places : ∀ place ∈ s.places, place.rows ≤ maxRows
  tables : ∀ t, 1 ≤ s.layout.rows t → t ∈ allowed

theorem answers_place {allowed : List Table} (layout : Layout) (size offset : Nat) {counts : List (Table × Nat)}
    (countable : ∀ count ∈ counts, Countable allowed count) :
    Outcome.Answers (place layout size offset counts) fun places => ∀ place ∈ places, place.rows ≤ maxRows := by
  induction counts generalizing offset with
  | nil =>
    intro places h
    cases h
    exact fun _ member => absurd member List.not_mem_nil
  | cons count counts ih =>
    obtain ⟨table, rows⟩ := count
    obtain ⟨first, others⟩ := List.forall_mem_cons.mp countable
    unfold place
    cases sized : layout.rowSize? table with
    | none => exact .error
    | some rowSize =>
      refine .ite (fun _ => .error) fun _ => .bind_of (ih _ others) fun places rest => .pure ?_
      exact List.forall_mem_cons.mpr ⟨first.2, rest⟩

theorem bounded_of_parse {allowed : List Table} {data : Bytes} {s : TableStream} (h : parse allowed data = .ok s) :
    s.Bounded allowed := by
  have header : (readHeader allowed).Answers fun found =>
      (∀ count ∈ found.2.2.2, Countable allowed count) ∧ ∃ sizes, found.1 = .ofCounts found.2.2.2 sizes := by
    unfold readHeader
    exact .bind fun _ => .bind fun major => .bind fun minor => .check (.bind fun sizes => .bind fun _ =>
      .bind fun valid => .bind fun sorted => .bind_of (.mapM (answers_readCount allowed) _) fun counts countable =>
        .pure ⟨countable, sizes, rfl⟩)
  obtain ⟨counts, c, run, placed, -⟩ := exists_header h
  obtain ⟨countable, sizes, laid⟩ := header _ _ _ run
  dsimp only at countable laid
  refine ⟨answers_place _ _ _ countable _ placed, fun t filled => ?_⟩
  rw [laid] at filled
  change 1 ≤ (counts.reverse.lookup t).getD 0 at filled
  cases known : counts.reverse.lookup t with
  | none =>
    rw [known] at filled
    exact absurd filled (by decide)
  | some rows => exact (countable _ (List.mem_reverse.mp (lookup_mem known))).1

theorem Bounded.rows_le {allowed : List Table} {s : TableStream} (bounded : s.Bounded allowed) {ρ : Type} [TableRow ρ] :
    Outcome.Answers (s.rows ρ) fun found => found.length ≤ maxRows := by
  intro found h
  obtain ⟨all, values, rfl⟩ := Outcome.map_eq_ok.mp h
  rw [List.length_map]
  unfold TableStream.values at values
  cases listed : s.places.find? (·.table == TableRow.table ρ) with
  | none =>
    simp only [listed] at values
    cases values
    exact Nat.zero_le _
  | some place =>
    simp only [listed] at values
    have length := Answers.parse (Answers.timesFrom [] place.rows) values
    rw [length, List.length_nil, Nat.zero_add]
    exact bounded.places place (List.mem_of_find?_eq_some listed)

end TableStream

/-- The parts of an image that is read. -/
structure ModuleImage.Bounded (image : ModuleImage) : Prop where
  version : '\x00' ∉ image.version.toList
  codeView : ∀ record ∈ image.codeView?, '\x00' ∉ record.path.toList
  tables : ∀ t, 1 ≤ image.layout.rows t → t ∈ Table.ofModule
  typeRefs : image.typeRefs.length ≤ maxRows
  typeDefs : image.typeDefs.length ≤ maxRows
  fields : image.fields.length ≤ maxRows
  methods : image.methods.length ≤ maxRows
  params : image.params.length ≤ maxRows
  memberRefs : image.memberRefs.length ≤ maxRows
  signatures : image.signatures.length ≤ maxRows
  assemblyRefs : image.assemblyRefs.length ≤ maxRows

namespace ModuleImage

theorem bounded_of_parseParts (data : Bytes) : Outcome.Answers (parseParts data) Bounded := by
  unfold parseParts
  refine .bind_of (fun root parsed => Root.nul_notMem_of_parse parsed) fun root version => .check ?_
  refine .bind fun _ => .bind fun strings => .bind fun _ => .bind fun blobs => .bind fun _ => .bind fun guids => ?_
  refine .bind fun userStrings? => .bind fun _ => ?_
  refine .bind_of (.option_mapM (fun record record' parsed => CodeViewRecord.nul_notMem_of_parse parsed) _)
    fun codeView? codeView => .bind fun _ => ?_
  refine .bind_of (fun tables parsed => TableStream.bounded_of_parse parsed) fun tables bounded => ?_
  refine .bind fun _ => .bind fun moduleRow => .bind fun _ => .bind fun assembly? => ?_
  exact .bind_of bounded.rows_le fun typeRefs typeRefs_le => .bind_of bounded.rows_le fun typeDefs typeDefs_le =>
    .bind_of bounded.rows_le fun fields fields_le => .bind_of bounded.rows_le fun methods methods_le =>
      .bind_of bounded.rows_le fun params params_le => .bind_of bounded.rows_le fun memberRefs memberRefs_le =>
        .bind_of bounded.rows_le fun signatures signatures_le => .bind_of bounded.rows_le fun assemblyRefs assemblyRefs_le =>
          .pure ⟨version, codeView, bounded.tables, typeRefs_le, typeDefs_le, fields_le, methods_le, params_le,
            memberRefs_le, signatures_le, assemblyRefs_le⟩

theorem bounded_of_parse (data : Bytes) : Outcome.Answers (parse data) Bounded := by
  unfold parse
  exact .bind_of (bounded_of_parseParts data) fun image bounded => .bind fun _ => .pure bounded

end ModuleImage

/-- The documents of symbols that are read. -/
theorem SymbolImage.documents_le_of_read (id : ImageId) (methodCount : Nat) (data : Bytes) :
    Outcome.Answers (SymbolImage.parse id methodCount data) fun symbols => symbols.documents.length ≤ maxRows := by
  unfold SymbolImage.parse
  refine .bind fun root => .bind fun _ => .bind fun pdb => .check (.bind fun _ => .bind fun _ => .bind fun blobs => ?_)
  refine .bind fun _ => .bind fun guids => .bind fun _ => ?_
  refine .bind_of (fun tables parsed => TableStream.bounded_of_parse parsed) fun tables bounded => ?_
  refine .bind_of bounded.rows_le fun rows few => .bind_of (.length_mapM _ rows) fun documents same => ?_
  refine .bind fun debugs => .check (.bind fun methods => .pure ?_)
  dsimp only
  omega

/-! How many rows are read -/

namespace TableStream

theorem answers_number (allowed : List Table) (number : Nat) :
    (readCount allowed number).Answers fun count => count.1.number = number := by
  unfold readCount
  cases named : (Table.ofNumber? number).filter allowed.contains with
  | none => exact .malformed _
  | some t =>
    have known := (Option.filter_eq_some_iff.mp named).1
    exact .bind fun rows => .check (.pure (Table.number_of_ofNumber? known))

theorem answers_numbers (allowed : List Table) (numbers : List Nat) :
    (numbers.mapM (readCount allowed)).Answers fun counts => counts.map (·.1.number) = numbers := by
  induction numbers with
  | nil =>
    rw [List.mapM_nil]
    exact .pure rfl
  | cons number numbers ih =>
    rw [List.mapM_cons]
    refine .bind_of (answers_number allowed number) fun count first => .bind_of ih fun counts others => .pure ?_
    simp [first, others]

theorem nodup_setBits (mask : UInt64) : (setBits mask).Nodup := List.nodup_range.filter _

/-- The counts in the header, each table once, are those of the layout and of the places. -/
structure Counted (s : TableStream) (counts : List (Table × Nat)) : Prop where
  distinct : (counts.map (·.1)).Nodup
  layout : ∃ sizes, s.layout = .ofCounts counts sizes
  places : s.places.map (fun place => (place.table, place.rows)) = counts

theorem counts_of_place {layout : Layout} {size offset : Nat} {counts : List (Table × Nat)} :
    Outcome.Answers (place layout size offset counts) fun places =>
      places.map (fun place => (place.table, place.rows)) = counts := by
  induction counts generalizing offset with
  | nil =>
    intro places h
    cases h
    rfl
  | cons count counts ih =>
    obtain ⟨table, rows⟩ := count
    unfold place
    cases sized : layout.rowSize? table with
    | none => exact .error
    | some rowSize =>
      refine .ite (fun _ => .error) fun _ => .bind_of ih fun places rest => .pure ?_
      simp [rest]

theorem counted_of_parse {allowed : List Table} {data : Bytes} {s : TableStream} (h : parse allowed data = .ok s) :
    ∃ counts, s.Counted counts := by
  have header : (readHeader allowed).Answers fun found =>
      (found.2.2.2.map (·.1)).Nodup ∧ ∃ sizes, found.1 = .ofCounts found.2.2.2 sizes := by
    unfold readHeader
    refine .bind fun _ => .bind fun major => .bind fun minor => .check (.bind fun sizes => .bind fun _ =>
      .bind fun valid => .bind fun sorted => .bind_of (answers_numbers allowed _) fun counts numbers => .pure ⟨?_, sizes, rfl⟩)
    apply List.Nodup.of_map Table.number
    rw [List.map_map]
    change (counts.map (·.1.number)).Nodup
    rw [numbers]
    exact nodup_setBits valid
  obtain ⟨counts, c, run, placed, -⟩ := exists_header h
  obtain ⟨distinct, laid⟩ := header _ _ _ run
  exact ⟨counts, distinct, laid, counts_of_place _ placed⟩

theorem lookup_places (places : List TablePlace) (t : Table) :
    (places.map fun place => (place.table, place.rows)).lookup t = (places.find? (·.table == t)).map (·.rows) := by
  induction places with
  | nil => rfl
  | cons place places ih =>
    rw [List.map_cons, List.lookup_cons, List.find?_cons, BEq.comm]
    cases place.table == t with
    | true => rfl
    | false => exact ih

theorem Counted.rows_eq {s : TableStream} {counts : List (Table × Nat)} (counted : s.Counted counts) (t : Table) :
    s.layout.rows t = ((s.places.find? (·.table == t)).map (·.rows)).getD 0 := by
  obtain ⟨sizes, laid⟩ := counted.layout
  rw [laid, Layout.rows_ofCounts counted.distinct, ← counted.places, lookup_places]

/-- As many rows are read as the layout counts. -/
theorem Counted.length_rows {s : TableStream} {counts : List (Table × Nat)} (counted : s.Counted counts) {ρ : Type}
    [TableRow ρ] : Outcome.Answers (s.rows ρ) fun found => s.layout.rows (TableRow.table ρ) = found.length := by
  intro found h
  obtain ⟨all, values, rfl⟩ := Outcome.map_eq_ok.mp h
  rw [List.length_map, counted.rows_eq]
  unfold TableStream.values at values
  cases listed : s.places.find? (·.table == TableRow.table ρ) with
  | none =>
    simp only [listed] at values
    cases values
    rfl
  | some place =>
    simp only [listed] at values
    have length := Answers.parse (Answers.timesFrom [] place.rows) values
    simp [length]

end TableStream

namespace ModuleImage

/-- The number of rows that were read of a table. -/
def rows (image : ModuleImage) : Table → Nat
  | .module => 1
  | .typeRef => image.typeRefs.length
  | .typeDef => image.typeDefs.length
  | .field => image.fields.length
  | .methodDef => image.methods.length
  | .param => image.params.length
  | .memberRef => image.memberRefs.length
  | .standAloneSig => image.signatures.length
  | .assembly => image.assembly?.toList.length
  | .assemblyRef => image.assemblyRefs.length
  | .moduleRef | .typeSpec | .document | .methodDebugInformation => 0

theorem singleModule_eq_ok {rows : List ModuleRow} {row : ModuleRow} : singleModule rows = .ok row ↔ rows = [row] := by
  constructor
  · intro h
    cases rows with
    | nil => cases h
    | cons first others =>
      cases others with
      | nil =>
        cases h
        rfl
      | cons second others => cases h
  · rintro rfl
    rfl

theorem answers_optionalAssembly (rows : List AssemblyRow) :
    Outcome.Answers (optionalAssembly rows) fun row? => row?.toList.length = rows.length := by
  intro row? h
  cases rows with
  | nil =>
    cases h
    rfl
  | cons first others =>
    cases others with
    | nil =>
      cases h
      rfl
    | cons second others => cases h

/-- The rows of an image are those of a stream of tables. -/
structure Tabled (image : ModuleImage) (s : TableStream) : Prop where
  layout : image.layout = s.layout
  module : s.rows ModuleRow = .ok [image.moduleRow]
  assembly : ∃ rows, s.rows AssemblyRow = .ok rows ∧ optionalAssembly rows = .ok image.assembly?
  typeRefs : s.rows TypeRefRow = .ok image.typeRefs
  typeDefs : s.rows TypeDefRow = .ok image.typeDefs
  fields : s.rows FieldRow = .ok image.fields
  methods : s.rows MethodDefRow = .ok image.methods
  params : s.rows ParamRow = .ok image.params
  memberRefs : s.rows MemberRefRow = .ok image.memberRefs
  signatures : s.rows StandAloneSigRow = .ok image.signatures
  assemblyRefs : s.rows AssemblyRefRow = .ok image.assemblyRefs

/-- What an image has beside its tables is found in the data. -/
structure Found (image : ModuleImage) (data tables : Bytes) (root : Root) : Prop where
  parsed : Root.parse data = .ok root
  version : root.version = image.version
  pdb : root.stream? data StreamName.pdb = none
  strings : ∃ stream, root.stream? data StreamName.strings = some stream ∧ StringHeap.parse stream = .ok image.strings
  blobs : ∃ stream, root.stream? data StreamName.blobs = some stream ∧ BlobHeap.parse stream = .ok image.blobs
  guids : ∃ stream, root.stream? data StreamName.guids = some stream ∧ GuidHeap.parse stream = .ok image.guids
  userStrings : (root.stream? data StreamName.userStrings).mapM UserStringHeap.parse = .ok image.userStrings?
  il : (root.stream? data StreamName.il).getD [] = image.il
  reserved : checkCode image.il = .ok ()
  codeView : (root.stream? data StreamName.codeView).mapM CodeViewRecord.parse = .ok image.codeView?
  tables : root.stream? data StreamName.tables = some tables

/-- With everything else found, reading the parts of an image comes down to reading its tables. -/
theorem Found.parseParts_eq {image : ModuleImage} {data tables : Bytes} {root : Root} (found : image.Found data tables root) :
    ∃ rest : TableStream → Result ModuleImage, parseParts data = (TableStream.parse Table.ofModule tables >>= rest) ∧
      ∀ s, image.Tabled s → rest s = .ok image := by
  obtain ⟨strings, hasStrings, stringHeap⟩ := found.strings
  obtain ⟨blobs, hasBlobs, blobHeap⟩ := found.blobs
  obtain ⟨guids, hasGuids, guidHeap⟩ := found.guids
  unfold parseParts
  rw [found.parsed, Outcome.ok_bind]
  simp only [found.pdb, hasStrings, hasBlobs, hasGuids, found.il, found.tables, Option.isSome_none, Bool.false_eq_true,
    ↓reduceIte, Outcome.ok_bind]
  rw [stringHeap, Outcome.ok_bind, blobHeap, Outcome.ok_bind, guidHeap, Outcome.ok_bind, found.userStrings, Outcome.ok_bind,
    found.reserved, Outcome.ok_bind, found.codeView, Outcome.ok_bind]
  refine ⟨_, rfl, fun s tabled => ?_⟩
  obtain ⟨assembly, hasAssembly, optional⟩ := tabled.assembly
  rw [tabled.module, Outcome.ok_bind, singleModule, Outcome.ok_bind, hasAssembly, Outcome.ok_bind, optional, Outcome.ok_bind,
    tabled.typeRefs, Outcome.ok_bind, tabled.typeDefs, Outcome.ok_bind, tabled.fields, Outcome.ok_bind, tabled.methods,
    Outcome.ok_bind, tabled.params, Outcome.ok_bind, tabled.memberRefs, Outcome.ok_bind, tabled.signatures, Outcome.ok_bind,
    tabled.assemblyRefs, Outcome.ok_bind, found.version, ← tabled.layout]
  rfl

theorem tabled_of_parseParts (data : Bytes) : Outcome.Answers (parseParts data) fun image =>
    ∃ tables s, TableStream.parse Table.ofModule tables = .ok s ∧ image.Tabled s := by
  have same : ∀ {α : Type} (result : Result α), Outcome.Answers result fun a => result = .ok a := fun _ _ h => h
  unfold parseParts
  refine .bind fun root => .check (.bind fun _ => .bind fun strings => .bind fun _ => .bind fun blobs => ?_)
  refine .bind fun _ => .bind fun guids => .bind fun userStrings? => .bind fun _ => .bind fun codeView? => ?_
  refine .bind fun stream => .bind_of (same _) fun tables parsed => .bind_of (same _) fun moduleRows ofModules => ?_
  refine .bind_of (same _) fun moduleRow single => .bind_of (same _) fun assemblyRows ofAssembly => ?_
  refine .bind_of (same _) fun assembly? optional => .bind_of (same _) fun typeRefs ofTypeRefs => ?_
  refine .bind_of (same _) fun typeDefs ofTypeDefs => .bind_of (same _) fun fields ofFields => ?_
  refine .bind_of (same _) fun methods ofMethods => .bind_of (same _) fun params ofParams => ?_
  refine .bind_of (same _) fun memberRefs ofMemberRefs => .bind_of (same _) fun signatures ofSignatures => ?_
  refine .bind_of (same _) fun assemblyRefs ofAssemblyRefs => .pure ⟨stream, tables, parsed, rfl, ?_, ⟨_, ofAssembly, optional⟩,
    ofTypeRefs, ofTypeDefs, ofFields, ofMethods, ofParams, ofMemberRefs, ofSignatures, ofAssemblyRefs⟩
  rw [ofModules, singleModule_eq_ok.mp single]

theorem tabled_of_parse (data : Bytes) : Outcome.Answers (parse data) fun image =>
    ∃ tables s, TableStream.parse Table.ofModule tables = .ok s ∧ image.Tabled s := by
  unfold parse
  exact .bind_of (tabled_of_parseParts data) fun image tabled => .bind fun _ => .pure tabled

/-- The layout of an image counts the rows that are read. -/
theorem counted_of_parse {data : Bytes} {image : ModuleImage} (h : parse data = .ok image) (t : Table) :
    image.layout.rows t = image.rows t := by
  by_cases allowed : t ∈ Table.ofModule
  · obtain ⟨tables, s, parsed, tabled⟩ := tabled_of_parse data image h
    obtain ⟨counts, counted⟩ := TableStream.counted_of_parse parsed
    rw [tabled.layout]
    cases t with
    | module => exact counted.length_rows _ tabled.module
    | typeRef => exact counted.length_rows _ tabled.typeRefs
    | typeDef => exact counted.length_rows _ tabled.typeDefs
    | field => exact counted.length_rows _ tabled.fields
    | methodDef => exact counted.length_rows _ tabled.methods
    | param => exact counted.length_rows _ tabled.params
    | memberRef => exact counted.length_rows _ tabled.memberRefs
    | standAloneSig => exact counted.length_rows _ tabled.signatures
    | assemblyRef => exact counted.length_rows _ tabled.assemblyRefs
    | assembly =>
      obtain ⟨rows, assemblies, optional⟩ := tabled.assembly
      exact (counted.length_rows _ assemblies).trans (answers_optionalAssembly rows _ optional).symm
    | moduleRef | typeSpec | document | methodDebugInformation => exact absurd allowed (by decide)
  · have none : ¬ 1 ≤ image.layout.rows t := fun filled => allowed ((bounded_of_parse data image h).tables t filled)
    have empty : image.rows t = 0 := by
      cases t with
      | moduleRef | typeSpec | document | methodDebugInformation => rfl
      | _ => exact absurd (by decide) allowed
    omega

end ModuleImage

end CilWeaver
