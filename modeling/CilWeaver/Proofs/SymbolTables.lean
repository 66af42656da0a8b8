import CilWeaver.Proofs.Compressed
import CilWeaver.Proofs.Points
import CilWeaver.Proofs.Rows
import CilWeaver.Proofs.SharedEntries
import CilWeaver.Proofs.Writes

/-!
The tables of the symbols of a module: what the rows of its documents and methods refer to. The name of a document is
read back from the blobs of its parts.
-/

namespace CilWeaver

namespace DocumentName

open Reader Step

theorem splitParts_ne_nil (separator : Char) (text : List Char) : splitParts separator text ≠ [] := by
  cases text with
  | nil => exact List.cons_ne_nil _ _
  | cons c text =>
    rw [splitParts]
    split
    · exact List.cons_ne_nil _ _
    · split
      · exact List.cons_ne_nil _ _
      · exact List.cons_ne_nil _ _

theorem joinParts_cons (between part : List Char) {parts : List (List Char)} (h : parts ≠ []) :
    joinParts between (part :: parts) = part ++ between ++ joinParts between parts := by
  cases parts with
  | nil => exact absurd rfl h
  | cons next parts => simp [joinParts, List.intercalate]

/-- The parts between separators and the separators make the text again. -/
theorem joinParts_splitParts (separator : Char) (text : List Char) :
    joinParts [separator] (splitParts separator text) = text := by
  induction text with
  | nil => rfl
  | cons c text ih =>
    rw [splitParts]
    split
    · rename_i same
      rw [joinParts_cons _ _ (splitParts_ne_nil separator text), ih, same]
      rfl
    · split
      · rename_i none
        exact absurd none (splitParts_ne_nil separator text)
      · rename_i part parts shape
        rw [shape] at ih
        cases parts with
        | nil => simpa [joinParts, List.intercalate] using ih
        | cons next parts =>
          rw [joinParts_cons _ _ (List.cons_ne_nil next parts)] at ih ⊢
          rw [List.cons_append, List.cons_append, ih]

/-- The reader finds a part at its index. -/
def ReadsPart (data : Bytes) (part : List Char) (index : Bytes) : Prop :=
  ∀ rest position, Reads (readPart ⟨data ++ rest⟩) position index part

theorem writes_addPart (part : List Char) :
    Writes (addPart part) fun index b => ReadsPart b.data part index := by
  unfold addPart
  refine ((BlobHeapBuilder.writes_add (Utf8.encode part)).bind
    (q := fun n index _ => compressed n = .ok index) fun n => ?_).mono ?_
  · cases size : compressed n with
    | ok bytes => exact (Writes.pure bytes).mono fun index _ same => by rw [same]
    | error e => exact Writes.throw
  rintro index b ⟨n, holds, size⟩ rest position
  have decoded : Utf8.decode? (Utf8.encode part) = some part := Utf8.decode?_encode part
  unfold readPart
  rw [← List.append_nil index]
  refine (reads_compressed size position).bind ((reads_ofResult (holds rest) _).bind_nil ?_)
  simp only [decoded]
  exact reads_pure _ _

theorem readsAll_parts {data : Bytes} {parts : List (List Char)} {indices : List Bytes}
    (all : List.Forall₂ (ReadsPart data) parts indices) (rest : Bytes) (position : Nat) :
    ReadsAll (readPart ⟨data ++ rest⟩) position indices.flatten parts := by
  induction all generalizing position with
  | nil => exact .nil position
  | cons first others ih => exact .cons (first rest position) (ih _)

theorem readPart_ne_nil (heap : BlobHeap) (position : Nat) (part : List Char) :
    ¬ Reads (readPart heap) position [] part := by
  intro reads
  have none := reads []
  cases none

theorem parse_of_parts {data : Bytes} {parts : List (List Char)} {indices : List Bytes} {separator : UInt8}
    (all : List.Forall₂ (ReadsPart data) parts indices) (rest : Bytes) :
    parse ⟨data ++ rest⟩ (separator :: indices.flatten) =
      .ok (String.ofList (joinParts (if separator == 0 then [] else [Char.ofNat separator.toNat]) parts)) := by
  have run := (readsAll_parts all rest (0 + [separator].length)).untilEnd (readPart_ne_nil _)
  have first := (reads_byte 0 separator).orDefect .documentNameEmpty indices.flatten
  unfold parse Reader.parse EStateM.run Cursor.start read
  rw [List.singleton_append] at first
  rw [bind_of_ok first]
  dsimp only
  rw [bind_of_ok run]
  rfl

theorem separator?_cases (text : List Char) :
    separator? text = some '/' ∨ separator? text = some '\\' ∨ separator? text = none := by
  unfold separator?
  split
  · exact .inl rfl
  · split
    · exact .inr (.inl rfl)
    · exact .inr (.inr rfl)

/-- What a document name leaves in the heap of blobs. -/
theorem writes_add (name : String) :
    Writes (add name) fun index b => ∃ blob, BlobHeap.Holds b.data index blob ∧
      ∀ rest, parse ⟨b.data ++ rest⟩ blob = .ok name := by
  have separated : ∀ separator, separator = '/' ∨ separator = '\\' →
      Writes (do
        let indices ← (splitParts separator name.toList).mapM addPart
        BlobHeapBuilder.add (UInt8.ofNat separator.toNat :: indices.flatten)) fun index b =>
        ∃ blob, BlobHeap.Holds b.data index blob ∧ ∀ rest, parse ⟨b.data ++ rest⟩ blob = .ok name := by
    intro separator known
    refine ((Writes.mapM fun part _ => writes_addPart part).bind fun indices =>
      BlobHeapBuilder.writes_add (UInt8.ofNat separator.toNat :: indices.flatten)).mono ?_
    rintro index b ⟨indices, parts, holds⟩
    refine ⟨_, holds, fun rest => ?_⟩
    have between : (if UInt8.ofNat separator.toNat == 0 then [] else
        [Char.ofNat (UInt8.ofNat separator.toNat).toNat]) = [separator] := by
      rcases known with rfl | rfl
      · rfl
      · rfl
    rw [parse_of_parts parts rest, between, joinParts_splitParts, String.ofList_toList]
  unfold add
  rcases separator?_cases name.toList with slash | backslash | none
  · simp only [slash]
    exact separated '/' (.inl rfl)
  · simp only [backslash]
    exact separated '\\' (.inr rfl)
  · simp only [none]
    refine ((writes_addPart name.toList).bind fun index => BlobHeapBuilder.writes_add (0 :: index)).mono ?_
    rintro index b ⟨part, reads, holds⟩
    refine ⟨_, holds, fun rest => ?_⟩
    have parts : List.Forall₂ (ReadsPart b.data) [name.toList] [part] := .cons reads .nil
    have read := @parse_of_parts _ _ _ 0 parts rest
    rw [List.flatten_singleton] at read
    rw [read]
    simp [joinParts, List.intercalate]

/-- A name is read back from any heap that it was added to, whatever had been added before and is added later. -/
theorem parse_name_of_later (earlier later : List Bytes) {name : String} {index : Nat} {b : BlobHeapBuilder}
    (added : add name (HeapFormat.blobs.after earlier) = .ok index b) :
    ∃ heap blob, BlobHeap.parse (HeapFormat.blobs.addAll later b).2.build = .ok heap ∧ heap.get index = .ok blob ∧
      parse heap blob = .ok name := by
  have laws := HeapFormat.blobs_laws
  have start : BlobHeapBuilder.Sound (HeapFormat.blobs.after earlier) := (laws.addAll_ok earlier laws.sound_empty).1
  obtain ⟨sound, -, holds⟩ := writes_add name _ index b start added
  obtain ⟨soundLast, grows⟩ := laws.addAll_keeps (p := fun last => last.Sound ∧ b.data <+: last.data)
    (fun before run => by
      obtain ⟨sound', grows', -⟩ := BlobHeapBuilder.add_ok before.1 run
      exact ⟨sound', before.2.trans grows'⟩) later ⟨sound, List.prefix_refl _⟩
  obtain ⟨blob, there, reads⟩ := holds _ grows
  have parsed := soundLast.parse_build
  have whole : padTo 4 (HeapFormat.blobs.addAll later b).2.build = (HeapFormat.blobs.addAll later b).2.build :=
    padTo_padTo _
  rw [whole] at parsed
  exact ⟨_, blob, parsed, there _, reads _⟩

/-- Both separators, empty parts and a part that is there already. -/
theorem parse_name_of_later_sample :
    ∃ index b, add "/a//b\\c/a/" (HeapFormat.blobs.after [[0x61], [0, 1]]) = .ok index b ∧
      ∃ heap blob, BlobHeap.parse (HeapFormat.blobs.addAll [[0x62], [0x61]] b).2.build = .ok heap ∧
        heap.get index = .ok blob ∧ parse heap blob = .ok "/a//b\\c/a/" := by
  cases added : add "/a//b\\c/a/" (HeapFormat.blobs.after [[0x61], [0, 1]]) with
  | ok index b => exact ⟨index, b, rfl, parse_name_of_later _ [[0x62], [0x61]] added⟩
  | error e b =>
    have answered : (answer? (add "/a//b\\c/a/" (HeapFormat.blobs.after [[0x61], [0, 1]]))).isSome = true := by
      decide +kernel
    rw [added] at answered
    cases answered

/-- The only part of this name has the bytes of the name itself, and shares its index. -/
example : answer? (addPart ['\x00', '\x01'] {}) = some [1] ∧ answer? (add "\x00\x01" {}) = some 1 := by
  decide +kernel

end DocumentName

/-! Rows of documents and methods -/

open Step TableRows

namespace SymbolDraft

structure HasDocument (d : SymbolDraft) (document : Document) (row : DocumentRow) : Prop where
  name : ∃ blob, d.HasBlob row.name blob ∧ ∀ rest, DocumentName.parse ⟨d.blobs.data ++ rest⟩ blob = .ok document.name
  hashAlgorithm : d.HasGuid row.hashAlgorithm document.hashAlgorithm
  hash : d.HasBlob row.hash document.hash
  language : d.HasGuid row.language document.language

/-- What is stored about a method: the blob of its points, or nothing. -/
def Debugs (body? : Option MethodBody) (offsets? : Option (List Nat)) (debug : MethodDebug) : Prop :=
  match body?.bind (·.symbols?), offsets? with
  | some symbols, some offsets =>
    if symbols.points.isEmpty then debug = ⟨0, []⟩
    else
      let stored := SymbolWriter.storedPoints offsets symbols
      debug.document = (stored.document?.getD 0).toNat ∧
        stored.encode (stored.document?.getD 0) = .ok debug.points
  | _, _ => debug = ⟨0, []⟩

structure HasDebug (d : SymbolDraft) (debug : MethodDebug) (row : MethodDebugRow) : Prop where
  document : row.document = debug.document
  points : d.HasBlob row.points debug.points

end SymbolDraft

namespace SymbolWriter

open SymbolDraft

theorem writes_documentRow (document : Document) :
    Writes (documentRow document) fun row d => d.HasDocument document row := by
  unfold documentRow
  refine ((writes_onBlobs (DocumentName.writes_add document.name)).bind fun name =>
    (writes_addGuid document.hashAlgorithm).bind fun hashAlgorithm => (writes_addBlob document.hash).bind
      fun hash => (writes_addGuid document.language).map _).mono ?_
  rintro row d ⟨name, hname, hashAlgorithm, halgorithm, hash, hhash, language, hlanguage, rfl⟩
  exact ⟨hname, halgorithm, hhash, hlanguage⟩

/-- A row without points. -/
theorem writes_emptyRow :
    Writes (pure ⟨0, 0⟩ : SymbolWriter MethodDebugRow) fun row d => d.HasDebug ⟨0, []⟩ row := by
  intro d row d' sound run
  obtain ⟨rfl, rfl⟩ := pure_eq_ok.mp run
  exact ⟨sound, Grows.refl d, fun final later => ⟨rfl, sound.blobs.holds_empty.grow later.blobs⟩⟩

theorem writes_debugRow (method : String) (body? : Option MethodBody) (offsets? : Option (List Nat)) :
    Writes (debugRow method body? offsets?) fun row d =>
      ∃ debug, Debugs body? offsets? debug ∧ d.HasDebug debug row := by
  have empty : ∀ debug : MethodDebug, debug = ⟨0, []⟩ → Debugs body? offsets? debug →
      Writes (pure ⟨0, 0⟩ : SymbolWriter MethodDebugRow) fun row d =>
        ∃ debug, Debugs body? offsets? debug ∧ d.HasDebug debug row := by
    rintro debug rfl debugs
    exact writes_emptyRow.mono fun row d has => ⟨⟨0, []⟩, debugs, has⟩
  unfold debugRow
  split
  · rename_i symbols offsets shape
    by_cases none : symbols.points.isEmpty = true
    · rw [if_pos none]
      refine empty _ rfl ?_
      simp only [Debugs, shape, none, ↓reduceIte]
    · rw [if_neg none]
      dsimp only
      cases encoded : (storedPoints offsets symbols).encode ((storedPoints offsets symbols).document?.getD 0) with
      | error e => exact Writes.throw
      | ok blob =>
        refine ((writes_addBlob blob).map _).mono ?_
        rintro row d ⟨index, holds, rfl⟩
        refine ⟨⟨((storedPoints offsets symbols).document?.getD 0).toNat, blob⟩, ?_, rfl, holds⟩
        simp only [Debugs, shape, none, Bool.false_eq_true, ↓reduceIte, encoded, and_self]
  · rename_i other
    refine empty _ rfl ?_
    unfold Debugs
    split
    · rename_i symbols offsets shape
      exact absurd shape (other symbols offsets · rfl)
    · rfl

/-- The rows of documents and methods refer to what is stored about them. -/
structure Describes (m : Module) (offsets : List (Option (List Nat)))
    (rows : List DocumentRow × List MethodDebugRow) (d : SymbolDraft) (debugs : List MethodDebug) : Prop where
  documents : List.Forall₂ d.HasDocument m.documents rows.1
  stored : List.Forall₂ (fun (method : (TypeDef × MethodDef) × Option (List Nat)) debug =>
    Debugs method.1.2.body? method.2 debug) (m.methodList.zip offsets) debugs
  methods : List.Forall₂ d.HasDebug debugs rows.2

theorem exists_middle {α β γ : Type} {R : α → β → Prop} {S : β → γ → Prop} {as : List α} {cs : List γ}
    (all : List.Forall₂ (fun a c => ∃ b, R a b ∧ S b c) as cs) :
    ∃ bs, List.Forall₂ R as bs ∧ List.Forall₂ S bs cs := by
  induction all with
  | nil => exact ⟨[], .nil, .nil⟩
  | cons first others ih =>
    obtain ⟨b, hr, hs⟩ := first
    obtain ⟨bs, rs, ss⟩ := ih
    exact ⟨b :: bs, .cons hr rs, .cons hs ss⟩

theorem writes_rows (m : Module) (offsets : List (Option (List Nat))) :
    Writes (rows m offsets) fun rows d => ∃ debugs, Describes m offsets rows d debugs := by
  unfold SymbolWriter.rows
  refine ((Writes.mapM fun document _ => writes_documentRow document).bind fun documents =>
    (Writes.mapM fun method _ => writes_debugRow _ method.1.2.body? method.2).map _).mono ?_
  rintro rows d ⟨documents, hdocuments, methods, hmethods, rfl⟩
  obtain ⟨debugs, stored, has⟩ := exists_middle hmethods
  exact ⟨debugs, hdocuments, stored, has⟩

end SymbolWriter

namespace SymbolStreams

/-- The tables of a symbol image. -/
def tablesOf (rows : List DocumentRow × List MethodDebugRow) : List TableRows := [of rows.1, of rows.2]

theorem distinct_tablesOf (rows : List DocumentRow × List MethodDebugRow) :
    ((tablesOf rows).map (·.1)).Nodup := by
  change [Table.document, Table.methodDebugInformation].Nodup
  decide

theorem counts_tablesOf (rows : List DocumentRow × List MethodDebugRow) :
    counts (tablesOf rows) = [(Table.document, rows.1.length), (.methodDebugInformation, rows.2.length)] := by
  simp only [counts, tablesOf, of, count, List.map_cons, List.map_nil, List.length_map]
  rfl

theorem good_tablesOf (rows : List DocumentRow × List MethodDebugRow) : ∀ t ∈ tablesOf rows, t.Good := by
  intro t member
  rcases List.mem_cons.mp member with rfl | member
  · exact ⟨List.cons_ne_nil _ _, fun row _ => ⟨trivial, trivial, trivial, trivial, trivial⟩⟩
  · rcases List.mem_cons.mp member with rfl | member
    · exact ⟨List.cons_ne_nil _ _, fun row _ => ⟨trivial, trivial, trivial⟩⟩
    · exact absurd member List.not_mem_nil

theorem mem_tablesOf {rows : List DocumentRow × List MethodDebugRow} {t : TableRows} (member : t ∈ tablesOf rows) :
    t.1 ∈ Table.ofSymbols ∧ (t.count = rows.1.length ∨ t.count = rows.2.length) := by
  have count : ∀ {ρ : Type} [TableRow ρ] (items : List ρ), (of items).count = items.length :=
    fun items => List.length_map _
  rcases List.mem_cons.mp member with rfl | member
  · exact ⟨show Table.document ∈ Table.ofSymbols by decide, .inl (count rows.1)⟩
  · rcases List.mem_cons.mp member with rfl | member
    · exact ⟨show Table.methodDebugInformation ∈ Table.ofSymbols by decide, .inr (count rows.2)⟩
    · exact absurd member List.not_mem_nil

/-- What the writer of symbols ends with. -/
structure Written (m : Module) (offsets : List (Option (List Nat)))
    (rows : List DocumentRow × List MethodDebugRow) (debugs : List MethodDebug) (d : SymbolDraft)
    (b : TableStreamBuilder) : Prop where
  described : SymbolWriter.Describes m offsets rows d debugs
  sound : d.Sound
  layout : b.layout = .ofCounts (counts (tablesOf rows)) (heapSizes false d.guids.isLarge d.blobs.isLarge)
  contains : b.Contains (filled (tablesOf rows))

def ofDraft (m : Module) (d : SymbolDraft) (b : TableStreamBuilder) : SymbolStreams :=
  { entryPoint := m.entryPoint, rows := m.rowCounts.map fun (t, rows) => (t, .ofNat rows), tables := b.build,
    guids := d.guids.build, blobs := d.blobs.build }

theorem added_eq (rows : List DocumentRow × List MethodDebugRow) :
    (do TableStreamBuilder.add rows.1; TableStreamBuilder.add rows.2 : EStateM Error TableStreamBuilder Unit) =
      (tablesOf rows).forM fun table => TableStreamBuilder.addValues table.1 table.2 := by
  unfold tablesOf
  simp only [List.forM, bind_pure_unit]
  rfl

theorem added_ok (rows : List DocumentRow × List MethodDebugRow) {layout : Layout} {b : TableStreamBuilder}
    (added : (do TableStreamBuilder.add rows.1; TableStreamBuilder.add rows.2 : EStateM Error TableStreamBuilder Unit)
      { layout } = .ok () b) : b.layout = layout ∧ b.Contains (filled (tablesOf rows)) := by
  rw [added_eq] at added
  exact TableStreamBuilder.addAll_ok (TableStreamBuilder.contains_nil layout) added

theorem ofModule_eq_ok {m : Module} {offsets : List (Option (List Nat))} {symbols : SymbolStreams}
    (h : ofModule m offsets = .ok symbols) :
    ∃ rows debugs d b, Written m offsets rows debugs d b ∧ symbols = ofDraft m d b := by
  unfold ofModule at h
  split at h
  · cases h
  · rename_i documents methods d run
    obtain ⟨sound, -, describes⟩ := SymbolWriter.writes_rows m offsets {} _ d SymbolDraft.sound_empty run
    obtain ⟨debugs, described⟩ := describes d (SymbolDraft.Grows.refl d)
    obtain ⟨tables, stream, h⟩ := Outcome.bind_eq_ok.mp h
    unfold TableStreamBuilder.stream at stream
    split at stream
    · rename_i b added
      obtain ⟨layout, contains⟩ := added_ok (documents, methods) added
      refine ⟨(documents, methods), debugs, d, b, ⟨described, sound, ?_, contains⟩, ?_⟩
      · rw [layout, counts_tablesOf]
      · rw [← Outcome.pure_eq_ok.mp h, ← Except.ok.inj stream]
        rfl
    · cases stream

end SymbolStreams

end CilWeaver
