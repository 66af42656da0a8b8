import CilWeaver.Debug.CodeView
import CilWeaver.Image.SymbolImage
import CilWeaver.Proofs.StrictCode
import CilWeaver.Proofs.StrictTables

/-!
Strict readers of debug records and symbol images. The lines of a point are numbers of 32 bits, and nothing but the
data bounds the number of points.
-/

namespace CilWeaver

open Partly (Gives narrow)
open StrictReader (Agrees AgreesAt Moves)

theorem StrictReader.Moves.compressed : Moves StrictReader.compressed Reader.compressed := by
  have payload : Moves StrictReader.payload Reader.payload := by
    refine Moves.byte.bind_left fun first => .ite (fun _ => .pure _) fun _ => .ite (fun _ => ?_) fun _ => ?_
    · exact Agrees.byte.bind fun _ => .pure _
    · exact .ite (fun _ => Agrees.byte.bind fun _ => Agrees.byte.bind fun _ => Agrees.byte.bind fun _ => .pure _)
        fun _ => .malformed _
  exact payload.bind_left fun _ => .pure _

/-! Debug records -/

namespace ImageId

def strictOfBytes? (bytes : Bytes) : Option ImageId := if h : bytes.length = size then some ⟨bytes, h⟩ else none

def strictRead (missing : Defect) : StrictReader ImageId := do
  let bytes ← (StrictReader.take size).orDefect missing
  StrictReader.need (strictOfBytes? bytes)

theorem strictOfBytes?_eq {bytes : Bytes} (length : bytes.length = size) : strictOfBytes? bytes = some (ofBytes bytes) := by
  have same := bytes_ofBytes length
  cases id : ofBytes bytes with
  | mk kept full =>
    rw [id] at same
    subst same
    exact dif_pos length

theorem agrees_read (missing : Defect) : Agrees (strictRead missing) (ImageId.read missing) := by
  intro data start inside
  refine (((Agrees.take size).orDefect missing) data start inside).bind fun taken stop _ within run => ?_
  obtain ⟨-, -, -, -, length⟩ := (Reader.Spans.take size).mapError _ _ _ run
  have id := AgreesAt.need (strictOfBytes?_eq length) (.pure (ofBytes taken) within)
  rw [bind_pure] at id
  exact id

end ImageId

namespace CodeViewRecord

def strictRead : StrictReader CodeViewRecord := do
  let found ← StrictReader.u32.orDefect .codeViewTooSmall
  if found != signature then StrictReader.malformed (.codeViewSignature found)
  let id ← ImageId.strictRead .codeViewTruncated
  let age ← StrictReader.u32
  let path ← StrictReader.zeroTerminated
  return ⟨id, age, path⟩

def strictParse (data : Bytes) : Partly CodeViewRecord := strictRead.parse data

theorem gives_parse (data : Bytes) : (strictParse data).Gives (CodeViewRecord.parse data) := by
  refine Agrees.parse ((Agrees.u32.orDefect _).bind fun _ => .check fun _ => (ImageId.agrees_read _).bind fun _ => ?_) data
  exact Agrees.u32.bind fun _ => Agrees.zeroTerminated.bind fun _ => .pure _

end CodeViewRecord

namespace PdbStream

def strictReadRows (number : Nat) : StrictReader (Table × UInt32) := do
  match (Table.ofNumber? number).filter Table.ofModule.contains with
  | none => StrictReader.malformed (.pdbTable number)
  | some table => return (table, ← StrictReader.u32)

def strictRead : StrictReader PdbStream := do
  let id ← ImageId.strictRead .pdbTruncated
  let entryPoint : Token := ⟨← StrictReader.u32⟩
  let mask ← StrictReader.u64
  let rows ← (TableStream.setBits mask).mapM strictReadRows
  return ⟨id, entryPoint, rows⟩

def strictParse (data : Bytes) : Partly PdbStream := strictRead.parse data

theorem gives_parse (data : Bytes) : (strictParse data).Gives (PdbStream.parse data) := by
  have rows (number : Nat) : Agrees (strictReadRows number) (readRows number) := by
    unfold strictReadRows readRows
    cases (Table.ofNumber? number).filter Table.ofModule.contains with
    | none => exact .malformed _
    | some table => exact Agrees.u32.bind fun _ => .pure _
  refine Agrees.parse ((ImageId.agrees_read _).bind fun _ => Agrees.u32.bind fun _ => Agrees.u64.bind fun _ => ?_) data
  exact (Agrees.mapM rows _).bind fun _ => .pure _

end PdbStream

namespace DocumentName

def strictReadPart (heap : BlobHeap) : StrictReader (List Char) := do
  let part ← StrictReader.ofPartly (heap.strictGet (← StrictReader.compressed))
  match Utf8.decode? part with
  | some text => return text
  | none => StrictReader.malformed .documentNameNotUtf8

noncomputable def strictRead (heap : BlobHeap) : StrictReader String := do
  let separator ← StrictReader.byte.orDefect .documentNameEmpty
  let parts ← StrictReader.untilEnd (strictReadPart heap)
  let between := if separator == 0 then [] else [Char.ofNat separator.toNat]
  return String.ofList (joinParts between parts)

noncomputable def strictParse (heap : BlobHeap) (data : Bytes) : Partly String := (strictRead heap).parse data

theorem gives_parse (heap : BlobHeap) (data : Bytes) : (strictParse heap data).Gives (DocumentName.parse heap data) := by
  have part : Moves (strictReadPart heap) (readPart heap) := by
    refine Moves.compressed.bind_left fun index => (Agrees.ofPartly (heap.gives_get index)).bind fun part => ?_
    cases Utf8.decode? part with
    | some text => exact .pure _
    | none => exact .malformed _
  exact Agrees.parse ((Agrees.byte.orDefect _).bind fun _ => part.untilEnd.bind fun _ => .pure _) data

end DocumentName

namespace SequencePoints

def strictReadDocument (null : Defect) : StrictReader UInt32 := do
  let document ← StrictReader.compressed
  if document == 0 then StrictReader.malformed null
  return .ofNat document

def strictCheckColumn (column : Int) : StrictReader UInt16 := do
  if column < 0 || 2 ^ 16 ≤ column then StrictReader.malformed (.pointColumn column)
  return .ofNat column.toNat

def strictReadVisible (offset : UInt32) (c : Context) (lines : Nat) (columns : Int) : StrictReader SequencePoint := do
  let (startLine, startColumn) ← match c.start? with
    | none => do
      let line ← StrictReader.compressed
      let column ← StrictReader.compressed
      pure ((line : Int), (column : Int))
    | some (line, column) => do
      let lineStep ← StrictReader.compressedInt
      let columnStep ← StrictReader.compressedInt
      pure ((line.toNat : Int) + lineStep, (column.toNat : Int) + columnStep)
  let endLine := startLine + lines
  if startLine < 1 || PointAt.maxLine < endLine || startLine == PointAt.hiddenLine.toNat then
    StrictReader.malformed (.pointLines startLine endLine)
  let start ← StrictReader.need (narrow 32 startLine)
  let first ← strictCheckColumn startColumn
  let stop ← StrictReader.need (narrow 32 endLine)
  let last ← strictCheckColumn (startColumn + columns)
  return ⟨offset, c.document, .ofNat start, first, .ofNat stop, last⟩

def strictReadPoint (c : Context) (offset : UInt32) : StrictReader (SequencePoint × Context) := do
  let lines ← StrictReader.compressed
  let columns ←
    if lines == 0 then (fun n : Nat => (n : Int)) <$> StrictReader.compressed else StrictReader.compressedInt
  if lines == 0 && columns == 0 then
    return (.hidden offset c.document, { c with offset? := some offset })
  let p ← strictReadVisible offset c lines columns
  return (p, { c with offset? := some offset, start? := some (p.startLine, p.startColumn) })

def strictReadRecord (c : Context) : StrictReader (Option SequencePoint × Context) := do
  let step ← StrictReader.compressed
  match c.offset? with
  | none =>
    let (p, c) ← strictReadPoint c (.ofNat step)
    return (some p, c)
  | some last =>
    if step == 0 then return (none, { c with document := ← strictReadDocument .nullDocumentRecord })
    if 2 ^ 32 ≤ last.toNat + step then StrictReader.malformed .pointOffsetOverflow
    let (p, c) ← strictReadPoint c (last + .ofNat step)
    return (some p, c)

/-- Nothing but the data bounds the number of records. -/
noncomputable def strictReadRecords (c : Context) (done : List SequencePoint) : StrictReader (List SequencePoint) :=
  StrictReader.loop (fun read : Context × List SequencePoint => do
    if ← StrictReader.hasMore then
      let found ← strictReadRecord read.1
      return .inl (found.2, found.1.elim read.2 (· :: read.2))
    else return .inr read.2.reverse) (c, done)

theorem strictReadRecords_eq (c : Context) (done : List SequencePoint) : strictReadRecords c done = (do
    if ← StrictReader.hasMore then
      let found ← strictReadRecord c
      strictReadRecords found.2 (found.1.elim done (· :: done))
    else return done.reverse) := by
  unfold strictReadRecords
  rw [StrictReader.loop_eq, bind_assoc]
  refine bind_congr fun more => ?_
  split <;> simp only [bind_assoc, pure_bind, Sum.elim_inl, Sum.elim_inr]

noncomputable def strictRead (document : UInt32) : StrictReader SequencePoints := do
  let localSignature ← StrictReader.compressed
  let first ← if document == 0 then strictReadDocument .pointsWithoutDocument else pure document
  let points ← strictReadRecords { document := first } []
  return ⟨.ofNat localSignature, points⟩

noncomputable def strictParse (blob : Bytes) (document : UInt32) : Partly SequencePoints := (strictRead document).parse blob

theorem agrees_readDocument (null : Defect) : Agrees (strictReadDocument null) (readDocument null) :=
  Agrees.compressed.bind fun _ => .check fun _ => .pure _

theorem agrees_checkColumn (column : Int) : Agrees (strictCheckColumn column) (checkColumn column) := .check fun _ => .pure _

/-- The rest of a visible point, of which the start is known. -/
theorem agrees_readVisible (offset : UInt32) (c : Context) (lines : Nat) (columns : Int) :
    Agrees (strictReadVisible offset c lines columns) (readVisible offset c lines columns) := by
  have rest (startLine startColumn : Int)
      (good : ¬ (decide (startLine < 1) || decide (PointAt.maxLine < startLine + lines) ||
        startLine == PointAt.hiddenLine.toNat) = true) : Agrees (do
        let start ← StrictReader.need (narrow 32 startLine)
        let first ← strictCheckColumn startColumn
        let stop ← StrictReader.need (narrow 32 (startLine + lines))
        let last ← strictCheckColumn (startColumn + columns)
        return (⟨offset, c.document, .ofNat start, first, .ofNat stop, last⟩ : SequencePoint)) (do
        let first ← checkColumn startColumn
        let last ← checkColumn (startColumn + columns)
        return ⟨offset, c.document, .ofNat startLine.toNat, first, .ofNat (startLine + lines).toNat, last⟩) := by
    have bounds : 1 ≤ startLine ∧ startLine + lines ≤ PointAt.maxLine := by
      simp only [Bool.or_eq_true, decide_eq_true_eq, not_or, Int.not_lt] at good
      exact ⟨good.1.1, good.1.2⟩
    have small : (PointAt.maxLine : Int) < 2 ^ 32 := by decide
    have start : narrow 32 startLine = some startLine.toNat := if_pos (by omega)
    have stop : narrow 32 (startLine + lines) = some (startLine + lines).toNat := if_pos (by omega)
    exact .need start ((agrees_checkColumn _).bind fun _ => .need stop ((agrees_checkColumn _).bind fun _ => .pure _))
  unfold strictReadVisible readVisible
  cases c.start? with
  | none => exact Agrees.compressed.bind fun _ => Agrees.compressed.bind fun _ => .check fun good => rest _ _ good
  | some start => exact Agrees.compressedInt.bind fun _ => Agrees.compressedInt.bind fun _ => .check fun good => rest _ _ good

theorem agrees_readPoint (c : Context) (offset : UInt32) : Agrees (strictReadPoint c offset) (readPoint c offset) := by
  have rest (lines : Nat) (columns : Int) := (agrees_readVisible offset c lines columns).bind fun p =>
    .pure (p, { c with offset? := some offset, start? := some (p.startLine, p.startColumn) })
  refine Agrees.compressed.bind fun lines => .ite (fun _ => ?_) fun _ => ?_
  · exact (Agrees.compressed.map _).bind fun columns => .ite (fun _ => .pure _) fun _ => rest lines columns
  · exact Agrees.compressedInt.bind fun columns => .ite (fun _ => .pure _) fun _ => rest lines columns

theorem moves_readRecord (c : Context) : Moves (strictReadRecord c) (readRecord c) := by
  refine Moves.compressed.bind_left fun step => ?_
  cases c.offset? with
  | none => exact (agrees_readPoint c _).bind fun _ => .pure _
  | some last =>
    refine .ite (fun _ => (agrees_readDocument _).bind fun _ => .pure _) fun _ => .check fun _ => ?_
    exact (agrees_readPoint c _).bind fun _ => .pure _

theorem agreesAt_readRecords {data : Bytes} {start fuel : Nat} (inside : start ≤ data.length)
    (enough : data.length - start ≤ fuel) (c : Context) (done : List SequencePoint) :
    AgreesAt data start (strictReadRecords c done) (readRecords c done fuel) := by
  induction fuel generalizing start c done with
  | zero =>
    rw [strictReadRecords_eq]
    exact .ended (by omega) (.pure _ inside)
  | succ fuel ih =>
    rw [strictReadRecords_eq]
    refine (Agrees.hasMore data start inside).bind fun more stop later within run => ?_
    cases run
    refine .ite (fun _ => ?_) fun _ => .pure _ inside
    refine ((moves_readRecord c).1 data start inside).bind fun found stop _ within run => ?_
    have advanced : start < stop := (moves_readRecord c).2 inside run
    obtain ⟨point?, c⟩ := found
    cases point? with
    | some p => exact ih within (by omega) c (p :: done)
    | none => exact ih within (by omega) c done

/-- A record takes a byte at least, so that the bytes ahead are enough steps for all records. -/
theorem gives_parse (blob : Bytes) (document : UInt32) : (strictParse blob document).Gives (SequencePoints.parse blob document) := by
  have records (c : Context) : Agrees (strictReadRecords c []) (do readRecords c [] (← Reader.remaining)) := by
    intro data start inside
    have loop := agreesAt_readRecords inside (Nat.le_refl _) c []
    rw [← List.length_drop] at loop
    exact ⟨fun run => loop.fails run, fun run => loop.answers run⟩
  refine Agrees.parse (Agrees.compressed.bind fun _ => .ite (fun _ => ?_) fun _ => ?_) blob
  · exact (agrees_readDocument _).bind fun first => (records { document := first }).bind fun _ => .pure _
  · exact (records { document }).bind fun _ => .pure _

end SequencePoints

/-! Symbol images -/

namespace SymbolImage

noncomputable def strictDocument (blobs : BlobHeap) (guids : GuidHeap) (row : DocumentRow) : Partly Document := do
  return {
    name := ← DocumentName.strictParse blobs (← blobs.strictGet row.name)
    hashAlgorithm := ← guids.strictGet row.hashAlgorithm
    hash := ← blobs.strictGet row.hash
    language := ← guids.strictGet row.language }

noncomputable def strictParse (id : ImageId) (methodCount : Nat) (data : Bytes) : Partly SymbolImage := do
  let root ← Root.strictParse data
  let stream (name : String) : Partly Bytes := do
    match ← root.strictStream? data name with
    | some stream => return stream
    | none => Partly.malformed (.missingSymbolStream name)
  let pdb ← PdbStream.strictParse (← stream StreamName.pdb)
  if pdb.id ≠ id then Partly.malformed .symbolsMismatch
  Partly.of (checkMethodCount pdb methodCount)
  let blobs ← BlobHeap.strictParse (← stream StreamName.blobs)
  let guids ← Partly.of (GuidHeap.parse (← stream StreamName.guids))
  let tables ← TableStream.strictParse Table.ofSymbols (← stream StreamName.tables)
  let documents ← (← tables.strictRows DocumentRow).mapM (strictDocument blobs guids)
  let rows ← tables.strictRows MethodDebugRow
  if rows.length ≠ 0 ∧ rows.length ≠ methodCount then
    Partly.malformed (.debugRowCount rows.length methodCount)
  let methods ← rows.mapM fun row => do
    return (⟨row.document, ← blobs.strictGet row.points⟩ : MethodDebug)
  return ⟨documents, pdb.entryPoint, methods⟩

def strictPlace (symbols : SymbolImage) (decoded : DecodedBody) (method : String) (p : SequencePoint) : Partly SourcePoint := do
  Partly.of (symbols.checkDocument method p.document.toNat)
  match ← Partly.need (decoded.strictIndexOf? p.place.toNat) with
  | some index => return p.map fun _ => index
  | none => Partly.malformed (.pointOffset method p.place.toNat)

noncomputable def strictBodySymbols (symbols : SymbolImage) (position : Nat) (decoded? : Option DecodedBody) (method : String) :
    Partly (Option BodySymbols) :=
  match symbols.methods[position]? with
  | none => return none
  | some debug =>
    if debug.points.isEmpty then return none
    else match decoded? with
      | none => Partly.malformed (.pointsWithoutBody method)
      | some decoded => do
        if debug.document ≠ 0 then Partly.of (symbols.checkDocument method debug.document)
        let stored ← SequencePoints.strictParse debug.points (.ofNat debug.document)
        let points ← stored.points.mapM (symbols.strictPlace decoded method)
        return some ⟨stored.localSignature, points⟩

theorem gives_document (blobs : BlobHeap) (guids : GuidHeap) (row : DocumentRow) :
    (strictDocument blobs guids row).Gives (document blobs guids row) :=
  (blobs.gives_get _).bind fun _ _ => (DocumentName.gives_parse blobs _).bind fun _ _ => (guids.gives_get _).bind fun _ _ =>
    (blobs.gives_get _).bind fun _ _ => (guids.gives_get _).bind fun _ _ => .pure _

theorem gives_parse (id : ImageId) (methodCount : Nat) (data : Bytes) :
    (strictParse id methodCount data).Gives (SymbolImage.parse id methodCount data) := by
  refine (Root.gives_parse data).bind fun root parsed => ?_
  have stream (name : String) : Gives (do
      match ← root.strictStream? data name with
      | some stream => return stream
      | none => Partly.malformed (.missingSymbolStream name) : Partly Bytes)
      (match root.stream? data name with
        | some stream => .ok stream
        | none => .error (.malformed (.missingSymbolStream name))) := by
    refine ((Root.within_of_parse parsed).gives_stream name).bind_ok ?_
    cases root.stream? data name with
    | some stream => exact .pure stream
    | none => exact .malformed _
  refine (stream _).bind fun _ _ => (PdbStream.gives_parse _).bind fun pdb _ => .check fun _ => (Gives.of _).bind fun _ _ => ?_
  refine (stream _).bind fun _ _ => (BlobHeap.gives_parse _).bind fun blobs _ => (stream _).bind fun _ _ => ?_
  refine (Gives.of _).bind fun guids _ => (stream _).bind fun _ _ => (TableStream.gives_parse _ _).bind fun tables placed => ?_
  have rows := TableStream.within_of_parse placed
  refine (rows.gives_rows _).bind fun _ _ => (Gives.mapM fun row _ => gives_document blobs guids row).bind fun _ _ => ?_
  refine (rows.gives_rows _).bind fun _ _ => .check fun _ => (Gives.mapM fun row _ => ?_).bind fun _ _ => .pure _
  exact (blobs.gives_get _).bind fun _ _ => .pure _

theorem gives_bodySymbols (symbols : SymbolImage) (position : Nat) {decoded? : Option DecodedBody}
    (full : ∀ decoded ∈ decoded?, decoded.Full) (method : String) :
    (symbols.strictBodySymbols position decoded? method).Gives (symbols.bodySymbols position decoded? method) := by
  unfold strictBodySymbols bodySymbols
  cases symbols.methods[position]? with
  | none => exact .pure _
  | some debug =>
    refine .ite (fun _ => .pure _) fun _ => ?_
    cases decoded? with
    | none => exact .malformed _
    | some decoded =>
      have place (p : SequencePoint) : (symbols.strictPlace decoded method p).Gives (symbols.place decoded method p) := by
        refine (Gives.of _).bind fun _ _ => .need ((full decoded rfl).strictIndexOf? _) ?_
        cases decoded.indexOf? p.place.toNat with
        | some index => exact .pure _
        | none => exact .malformed _
      have points := (SequencePoints.gives_parse debug.points (.ofNat debug.document)).bind fun stored _ =>
        (Gives.mapM fun p (_ : p ∈ stored.points) => place p).bind fun points _ =>
          .pure (some (⟨stored.localSignature, points⟩ : BodySymbols))
      exact .ite (fun _ => (Gives.of _).bind fun _ _ => points) fun _ => points

end SymbolImage

end CilWeaver
