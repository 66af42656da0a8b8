import CilWeaver.Proofs.Images
import CilWeaver.Proofs.SymbolTables

/-!
The symbol image of a module is read as its documents and what is stored about its methods.
-/

namespace CilWeaver

open Step TableRows

/-- The numbers of rows that a symbol image notes are in the order of the tables. -/
theorem ordered_rowCounts (m : Module) (id : ImageId) :
    PdbStream.Ordered ⟨id, m.entryPoint, m.rowCounts.map fun (t, rows) => (t, .ofNat rows)⟩ := by
  have ascending : (Table.ofModule.map fun t => (t, m.rows t)).Pairwise fun a b => a.1.number < b.1.number := by
    rw [List.pairwise_map]
    change Table.ofModule.Pairwise fun s t => s.number < t.number
    decide
  constructor
  · exact List.pairwise_map.mpr (ascending.sublist List.filter_sublist)
  · intro row member
    obtain ⟨⟨t, rows⟩, mem, rfl⟩ := List.mem_map.mp member
    obtain ⟨s, allowed, same⟩ := List.mem_map.mp (List.mem_filter.mp mem).1
    cases same
    exact allowed

namespace SymbolStreams

/-- The streams of an image with their names. -/
def named (s : SymbolStreams) (id : ImageId) : List (String × Bytes) :=
  [(StreamName.pdb, PdbStream.build ⟨id, s.entryPoint, s.rows⟩), (StreamName.tables, s.tables),
    (StreamName.guids, s.guids), (StreamName.blobs, s.blobs)]

theorem streams_named (s : SymbolStreams) (id : ImageId) : Root.Streams (s.named id) :=
  ⟨by simp [named, StreamName.known], by simp [named]; decide, List.cons_ne_nil _ _, by simp [named]⟩

theorem lookup_pdb (s : SymbolStreams) (id : ImageId) :
    (s.named id).lookup StreamName.pdb = some (PdbStream.build ⟨id, s.entryPoint, s.rows⟩) := rfl

theorem lookup_tables (s : SymbolStreams) (id : ImageId) :
    (s.named id).lookup StreamName.tables = some s.tables := by
  simp [named, StreamName.tables, StreamName.pdb, List.lookup_cons]

theorem lookup_guids (s : SymbolStreams) (id : ImageId) : (s.named id).lookup StreamName.guids = some s.guids := by
  simp [named, StreamName.tables, StreamName.pdb, StreamName.guids, List.lookup_cons]

theorem lookup_blobs (s : SymbolStreams) (id : ImageId) : (s.named id).lookup StreamName.blobs = some s.blobs := by
  simp [named, StreamName.tables, StreamName.pdb, StreamName.guids, StreamName.blobs, List.lookup_cons]

section

variable {m : Module} {offsets : List (Option (List Nat))} {rows : List DocumentRow × List MethodDebugRow}
  {debugs : List MethodDebug} {d : SymbolDraft} {b : TableStreamBuilder}

theorem layout_counts (written : Written m offsets rows debugs d b) :
    Layout.ofCounts (counts (filled (tablesOf rows))) b.layout.heapSizes = b.layout := by
  have distinct := distinct_tablesOf rows
  rw [← tables_counts] at distinct
  rw [written.layout, counts_filled, Layout.ofCounts_filter distinct]
  rfl

theorem parse_tables (written : Written m offsets rows debugs d b) (documents : rows.1.length ≤ maxRows)
    (methods : rows.2.length ≤ maxRows) :
    TableStream.parse Table.ofSymbols b.build = .ok (.ofBuilder b (filled (tablesOf rows))) := by
  refine TableStream.parse_build written.contains (fun t mem => (good_tablesOf rows t (mem_of_filled mem)).columns)
    (fun t mem => (mem_tablesOf (mem_of_filled mem)).1) (fun t mem => ?_) (layout_counts written)
  rcases (mem_tablesOf (mem_of_filled mem)).2 with count | count
  · rw [count]
    exact documents
  · rw [count]
    exact methods

theorem documents_le_of_parse (written : Written m offsets rows debugs d b) (small : b.build.length < 2 ^ 32)
    {s : TableStream} (read : TableStream.parse Table.ofSymbols b.build = .ok s) : rows.1.length ≤ maxRows := by
  have columns : ∀ t ∈ filled (tablesOf rows), t.1.columns ≠ [] := fun t mem =>
    (good_tablesOf rows t (mem_of_filled mem)).columns
  have bounds := TableStream.counts_le_of_parse written.contains columns
    (fun t mem => (mem_tablesOf (mem_of_filled mem)).1) small read
  cases shape : rows.1 with
  | nil => exact Nat.zero_le _
  | cons row others =>
    have member : of rows.1 ∈ filled (tablesOf rows) := by
      refine List.mem_filter.mpr ⟨List.mem_cons_self, ?_⟩
      rw [shape]
      rfl
    have bound := bounds _ member
    change (rows.1.map TableRow.toValues).length ≤ maxRows at bound
    rw [List.length_map, shape] at bound
    exact bound

/-- The numbers of rows of those tables that have rows. -/
def countsOf (rows : Table → Nat) (tables : List Table) : List (Table × UInt32) :=
  ((tables.map fun t => (t, rows t)).filter fun c => 0 < c.2).map fun (t, count) => (t, .ofNat count)

theorem countsOf_cons (rows : Table → Nat) (t : Table) (tables : List Table) :
    countsOf rows (t :: tables) =
      if rows t = 0 then countsOf rows tables else (t, .ofNat (rows t)) :: countsOf rows tables := by
  unfold countsOf
  rw [List.map_cons, List.filter_cons]
  by_cases zero : rows t = 0
  · rw [if_neg (by simp [zero]), if_pos zero]
  · rw [if_pos (by simpa using Nat.pos_of_ne_zero zero), if_neg zero]
    rfl

theorem lookup_countsOf_notMem (rows : Table → Nat) {t : Table} {tables : List Table} (absent : t ∉ tables) :
    (countsOf rows tables).lookup t = none := by
  induction tables with
  | nil => rfl
  | cons s tables ih =>
    have others := ih fun member => absent (List.mem_cons_of_mem s member)
    have other : (t == s) = false := beq_eq_false_iff_ne.mpr fun same => absent (same ▸ List.mem_cons_self)
    rw [countsOf_cons]
    split
    · exact others
    · rw [List.lookup_cons, other]
      exact others

theorem lookup_countsOf (rows : Table → Nat) {t : Table} {tables : List Table} (distinct : tables.Nodup)
    (member : t ∈ tables) :
    (countsOf rows tables).lookup t = if rows t = 0 then none else some (.ofNat (rows t)) := by
  induction tables with
  | nil => exact absurd member List.not_mem_nil
  | cons s tables ih =>
    obtain ⟨fresh, distinct⟩ := List.nodup_cons.mp distinct
    rw [countsOf_cons]
    by_cases here : t = s
    · subst here
      by_cases zero : rows t = 0
      · rw [if_pos zero, if_pos zero, lookup_countsOf_notMem rows fresh]
      · rw [if_neg zero, if_neg zero, List.lookup_cons, beq_self_eq_true]
    · have others := ih distinct ((List.mem_cons.mp member).resolve_left here)
      by_cases zero : rows s = 0
      · rw [if_pos zero]
        exact others
      · rw [if_neg zero, List.lookup_cons, beq_eq_false_iff_ne.mpr here]
        exact others

theorem rows?_methodDef (m : Module) (id : ImageId) :
    PdbStream.rows? ⟨id, m.entryPoint, m.rowCounts.map fun (t, rows) => (t, .ofNat rows)⟩ .methodDef =
      if m.rows .methodDef = 0 then none else some (.ofNat (m.rows .methodDef)) :=
  lookup_countsOf m.rows (by decide : Table.ofModule.Nodup) (by decide)

theorem checkMethodCount_ok (m : Module) (id : ImageId) (few : m.rows .methodDef ≤ maxRows) :
    SymbolImage.checkMethodCount ⟨id, m.entryPoint, m.rowCounts.map fun (t, rows) => (t, .ofNat rows)⟩
      (m.rows .methodDef) = .ok () := by
  unfold SymbolImage.checkMethodCount
  rw [rows?_methodDef]
  by_cases zero : m.rows .methodDef = 0
  · simp only [zero, ↓reduceIte]
  · have number : (UInt32.ofNat (m.rows .methodDef)).toNat = m.rows .methodDef := by
      rw [UInt32.toNat_ofNat']
      unfold maxRows at few
      omega
    simp only [zero, ↓reduceIte, number]

end

end SymbolStreams

namespace SymbolImage

open SymbolStreams

variable {m : Module} {offsets : List (Option (List Nat))} {rows : List DocumentRow × List MethodDebugRow}
  {debugs : List MethodDebug} {d : SymbolDraft} {b : TableStreamBuilder}

/-- Every document is read from its row. -/
theorem mapM_document (written : SymbolStreams.Written m offsets rows debugs d b) :
    rows.1.mapM (document ⟨d.blobs.build⟩ ⟨d.guids.build⟩) = .ok m.documents := by
  refine Outcome.mapM_eq_ok.mpr (written.described.documents.flip.imp fun row document has => ?_)
  obtain ⟨⟨blob, holds, parses⟩, hashAlgorithm, hash, language⟩ := has
  have name : BlobHeap.get ⟨d.blobs.build⟩ row.name = .ok blob := holds _
  have text : DocumentName.parse ⟨d.blobs.build⟩ blob = .ok document.name := parses _
  have hashed : BlobHeap.get ⟨d.blobs.build⟩ row.hash = .ok document.hash := hash _
  have algorithm := hashAlgorithm []
  have spoken := language []
  rw [List.append_nil] at algorithm spoken
  have algorithm' : GuidHeap.get ⟨d.guids.build⟩ row.hashAlgorithm = .ok document.hashAlgorithm := algorithm
  have spoken' : GuidHeap.get ⟨d.guids.build⟩ row.language = .ok document.language := spoken
  unfold SymbolImage.document
  rw [name, Outcome.ok_bind, text, Outcome.ok_bind, algorithm', Outcome.ok_bind, hashed, Outcome.ok_bind, spoken']
  rfl

theorem mapM_methods (written : SymbolStreams.Written m offsets rows debugs d b) :
    (rows.2.mapM fun row => do
      return (⟨row.document, ← BlobHeap.get ⟨d.blobs.build⟩ row.points⟩ : MethodDebug) :
      Result (List MethodDebug)) = .ok debugs := by
  refine Outcome.mapM_eq_ok.mpr (written.described.methods.flip.imp fun row debug has => ?_)
  have points : BlobHeap.get ⟨d.blobs.build⟩ row.points = .ok debug.points := has.points _
  rw [points, has.document]
  rfl

/-- Reading symbols comes down to reading their tables. -/
theorem parse_eq (written : SymbolStreams.Written m offsets rows debugs d b) (count : rows.2.length = m.rows .methodDef)
    (few : m.rows .methodDef ≤ maxRows) {id : ImageId} {data : Bytes}
    (built : (SymbolStreams.ofDraft m d b).image id = .ok data) (small : data.length < 2 ^ 32) :
    ∃ rest : TableStream → Result SymbolImage,
      SymbolImage.parse id (m.rows .methodDef) data = (TableStream.parse Table.ofSymbols b.build >>= rest) ∧
        rest (.ofBuilder b (filled (tablesOf rows))) = .ok ⟨m.documents, m.entryPoint, debugs⟩ := by
  have streams := streams_named (SymbolStreams.ofDraft m d b) id
  have image : Root.build SymbolStreams.version ((SymbolStreams.ofDraft m d b).named id) = .ok data := built
  have root := Root.parse_build image (by decide) streams small
  have stream := Root.stream?_ofStreams image
  have pdb := stream StreamName.pdb
  have blobs := stream StreamName.blobs
  have guids := stream StreamName.guids
  have tables := stream StreamName.tables
  rw [lookup_pdb, Option.map_some] at pdb
  rw [lookup_blobs, Option.map_some] at blobs
  rw [lookup_guids, Option.map_some] at guids
  rw [lookup_tables, Option.map_some] at tables
  have described : PdbStream.parse (padTo 4 (PdbStream.build
      ⟨id, (SymbolStreams.ofDraft m d b).entryPoint, (SymbolStreams.ofDraft m d b).rows⟩)) = _ :=
    PdbStream.parse_build _ (ordered_rowCounts m id) _
  have blobHeap : BlobHeap.parse (padTo 4 (SymbolStreams.ofDraft m d b).blobs) = _ :=
    written.sound.blobs.parse_build
  have guidHeap : GuidHeap.parse (padTo 4 (SymbolStreams.ofDraft m d b).guids) = _ := d.guids.parse_build
  have tableStream : padTo 4 (SymbolStreams.ofDraft m d b).tables = b.build := padTo_padTo _
  unfold SymbolImage.parse
  rw [root, Outcome.ok_bind]
  simp only [pdb, blobs, guids, tables, Outcome.ok_bind]
  rw [described, Outcome.ok_bind]
  simp only [ne_eq, not_true_eq_false, ↓reduceIte]
  rw [checkMethodCount_ok m id few, Outcome.ok_bind, blobHeap, Outcome.ok_bind, guidHeap, Outcome.ok_bind, tableStream]
  refine ⟨_, rfl, ?_⟩
  have typed := fun {ρ : Type} [TableRow ρ] (items : List ρ) (member : of items ∈ tablesOf rows) =>
    TableStream.rows_ofBuilder written.contains (good_tablesOf rows) (distinct_tablesOf rows) member
  rw [typed rows.1 (by simp [tablesOf]), Outcome.ok_bind, mapM_document written, Outcome.ok_bind,
    typed rows.2 (by simp [tablesOf]), Outcome.ok_bind]
  rw [if_neg (by omega), mapM_methods written]
  rfl

/-- The symbols of a module are read as its documents and what was stored about its methods iff image
    and documents are small enough, and never as anything else. -/
theorem parse_eq_ok (written : SymbolStreams.Written m offsets rows debugs d b)
    (count : rows.2.length = m.rows .methodDef) (few : m.rows .methodDef ≤ maxRows) {id : ImageId} {data : Bytes}
    {symbols : SymbolImage} (built : (SymbolStreams.ofDraft m d b).image id = .ok data) :
    SymbolImage.parse id (m.rows .methodDef) data = .ok symbols ↔
      symbols = ⟨m.documents, m.entryPoint, debugs⟩ ∧ data.length < 2 ^ 32 ∧ m.documents.length ≤ maxRows := by
  have streams := streams_named (SymbolStreams.ofDraft m d b) id
  have image : Root.build SymbolStreams.version ((SymbolStreams.ofDraft m d b).named id) = .ok data := built
  have documents := written.described.documents.length_eq
  constructor
  · intro read
    have small : data.length < 2 ^ 32 := by
      unfold SymbolImage.parse at read
      obtain ⟨root, parsed, -⟩ := Outcome.bind_eq_ok.mp read
      exact Root.length_lt_of_parse image streams parsed
    obtain ⟨rest, same, last⟩ := parse_eq written count few built small
    rw [same] at read
    obtain ⟨tables, parsed, others⟩ := Outcome.bind_eq_ok.mp read
    have stream := Root.stream?_ofStreams image StreamName.tables
    rw [lookup_tables, Option.map_some,
      show padTo 4 (SymbolStreams.ofDraft m d b).tables = b.build from padTo_padTo _] at stream
    have size := length_stream?_le stream
    have bound := SymbolStreams.documents_le_of_parse written (Nat.lt_of_le_of_lt size small) parsed
    rw [SymbolStreams.parse_tables written bound (by omega)] at parsed
    cases parsed
    rw [last] at others
    exact ⟨(Except.ok.inj others).symm, small, by omega⟩
  · rintro ⟨rfl, small, bound⟩
    obtain ⟨rest, same, last⟩ := parse_eq written count few built small
    rw [same, SymbolStreams.parse_tables written (by omega) (by omega), Outcome.ok_bind, last]

end SymbolImage

namespace BodySymbols

/-- The symbols with their hidden points in the one form that is read. -/
def canonical (s : BodySymbols) : BodySymbols := { s with points := s.points.map PointAt.canonical }

end BodySymbols

namespace MethodBody

open Code

/-- The symbols of a body that is read: none, unless there are points. -/
def storedSymbols? (b : MethodBody) : Option BodySymbols :=
  (b.symbols?.filter fun s => !s.points.isEmpty).map BodySymbols.canonical

/-- A point of a body names an instruction and a document. -/
structure Names (count documents : Nat) (p : SourcePoint) : Prop where
  place : p.place < count
  document : 0 < p.document.toNat ∧ p.document.toNat ≤ documents

theorem names_of_checkPoints {count documents : Nat} {previous? : Option Nat} {points : List SourcePoint}
    (h : checkPoints count documents previous? points = .ok ()) : ∀ p ∈ points, Names count documents p := by
  induction points generalizing previous? with
  | nil => exact fun p member => absurd member List.not_mem_nil
  | cons p points ih =>
    unfold checkPoints at h
    split at h
    · cases h
    · rename_i inside
      split at h
      · cases h
      · split at h
        · cases h
        · rename_i named
          simp only [Bool.or_eq_true, beq_iff_eq, decide_eq_true_eq, not_or] at named
          have positive : p.document.toNat ≠ 0 := fun zero => named.1 (UInt32.toNat.inj zero)
          rw [List.forall_mem_cons]
          exact ⟨⟨by omega, by omega, by omega⟩, ih h⟩

end MethodBody

namespace SymbolImage

open Code MethodBody

variable {symbols : SymbolImage} {position : Nat} {debug : MethodDebug}

theorem checkDocument_ok {document : Nat} (positive : 0 < document) (bound : document ≤ symbols.documents.length)
    (method : String) : symbols.checkDocument method document = .ok () := by
  unfold checkDocument
  rw [if_neg (by omega)]

/-- A stored point is tied to the instruction that it came from. -/
theorem place_offset {code : List Instruction} {p : SourcePoint}
    (names : Names code.length symbols.documents.length p) (small : codeSize code < 2 ^ 32) (method : String) :
    symbols.place ⟨code, offsets code⟩ method
      (p.map fun index => .ofNat ((offsets code).toArray[index]?.getD 0)).canonical = .ok p.canonical := by
  have place : (UInt32.ofNat ((offsets code).toArray[p.place]?.getD 0)).toNat = codeSize (code.take p.place) := by
    rw [Region.table_offset code (Nat.le_of_lt names.place), Region.toNat_offset small]
  have found : (DecodedBody.mk code (offsets code)).indexOf?
      (UInt32.ofNat ((offsets code).toArray[p.place]?.getD 0)).toNat = some p.place := by
    rw [place, indexOf?_offsets code names.place]
  have document : (p.map fun index => UInt32.ofNat ((offsets code).toArray[index]?.getD 0)).document = p.document := rfl
  have start : (p.map fun index => UInt32.ofNat ((offsets code).toArray[index]?.getD 0)).place =
      .ofNat ((offsets code).toArray[p.place]?.getD 0) := rfl
  unfold SymbolImage.place
  rw [PointAt.document_canonical, PointAt.place_canonical, document, start,
    checkDocument_ok names.document.1 names.document.2, Outcome.ok_bind, found]
  dsimp only
  rw [PointAt.canonical_map]
  refine congrArg Except.ok ?_
  unfold PointAt.canonical
  split
  · rfl
  · rfl

theorem bodySymbols_eq (found : symbols.methods[position]? = some debug) {b : MethodBody}
    (debugs : SymbolDraft.Debugs (some b) (some (offsets (promote b.code))) debug)
    (placed : b.Placed symbols.documents.length) (small : codeSize (promote b.code) < 2 ^ 32) (method : String) :
    symbols.bodySymbols position (some ⟨promote b.code, offsets (promote b.code)⟩) method =
      .ok b.storedSymbols? := by
  unfold bodySymbols storedSymbols?
  simp only [found]
  simp only [SymbolDraft.Debugs, Option.bind_some] at debugs
  cases shape : b.symbols? with
  | none =>
    simp only [shape] at debugs
    rw [debugs]
    rfl
  | some own =>
    simp only [shape] at debugs
    by_cases empty : own.points.isEmpty = true
    · rw [if_pos empty] at debugs
      rw [debugs, Option.filter_some, empty]
      rfl
    · rw [if_neg empty] at debugs
      obtain ⟨document, encoded⟩ := debugs
      have length := (widened_promote b.code).length_eq
      have names := names_of_checkPoints (placed.points own shape)
      rw [length] at names
      have parsed := SequencePoints.parse_encode encoded
      have stored : debug.points.isEmpty = false := by
        rw [← Bool.not_eq_true, List.isEmpty_iff]
        exact SequencePoints.encode_ne_nil encoded
      have checked : debug.document ≠ 0 → symbols.checkDocument method debug.document = .ok () := by
        intro nonzero
        rw [document] at nonzero ⊢
        cases same : (SymbolWriter.storedPoints (offsets (promote b.code)) own).document? with
        | none =>
          rw [same] at nonzero
          exact absurd rfl nonzero
        | some number =>
          obtain ⟨p, member, rfl⟩ := SequencePoints.mem_of_document? same
          obtain ⟨q, mem, rfl⟩ := List.mem_map.mp member
          exact checkDocument_ok (names q mem).document.1 (names q mem).document.2 method
      have points : (((SymbolWriter.storedPoints (offsets (promote b.code)) own).points.map
          PointAt.canonical).mapM (symbols.place ⟨promote b.code, offsets (promote b.code)⟩ method)) =
            .ok (own.points.map PointAt.canonical) := by
        change ((own.points.map _).map PointAt.canonical).mapM _ = _
        rw [List.map_map, mapM_map_eq_ok, List.forall₂_map_right_iff, List.forall₂_same]
        exact fun p member => place_offset (names p member) small method
      rw [Option.filter_some, stored]
      simp only [Bool.false_eq_true, ↓reduceIte, empty, Bool.not_false]
      rw [Outcome.guard_bind checked, document, UInt32.ofNat_toNat, parsed, Outcome.ok_bind, points]
      rfl

end SymbolImage

end CilWeaver
