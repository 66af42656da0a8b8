import CilWeaver.Proofs.OtherEmissions
import CilWeaver.Proofs.StrictDrafts

/-!
Strict emission. Each lookup of an offset, each difference and each conversion on the way to the images is out of range or
has the value that the emitter goes on with, and only the distances of branches can be out of range.
-/

namespace CilWeaver

open Code
open Partly (Gives minus narrow narrowSigned)
open StrictWriter (Agrees)

/-! Source points: differences between offsets, lines and columns are taken of numbers in their order -/

namespace SequencePoints

def strictEncodeOffset (c : Context) (p : SequencePoint) : Partly Bytes :=
  match c.offset? with
  | none => Partly.of (compressed p.place.toNat)
  | some last =>
    if last < p.place then do Partly.of (compressed (← Partly.need (minus p.place.toNat last.toNat)))
    else Partly.of (fault (.pointNotAfter p.place.toNat last.toNat))

def strictEncodeExtent (p : SequencePoint) : Partly Bytes := do
  if p.endLine < p.startLine || p.startLine == 0 || PointAt.maxLine < p.endLine.toNat then
    Partly.of (fault (.pointLines p.place.toNat p.startLine.toNat p.endLine.toNat))
  let lines ← Partly.need (minus p.endLine.toNat p.startLine.toNat)
  let columns ← Partly.need (narrowSigned 32 (p.endColumn.toNat - p.startColumn.toNat))
  if lines == 0 && columns ≤ 0 then
    Partly.of (fault (.pointExtent p.place.toNat p.startLine.toNat p.startColumn.toNat p.endColumn.toNat))
  let first ← Partly.of (compressed lines)
  let second ← if lines == 0 then do Partly.of (compressed (← Partly.need (narrow 32 columns)))
    else Partly.of (compressedInt columns)
  return first ++ second

def strictEncodeStart (c : Context) (p : SequencePoint) : Partly Bytes :=
  match c.start? with
  | none => do return (← Partly.of (compressed p.startLine.toNat)) ++ (← Partly.of (compressed p.startColumn.toNat))
  | some (line, column) => do
    let next ← Partly.need (narrowSigned 32 p.startLine.toNat)
    let last ← Partly.need (narrowSigned 32 line.toNat)
    let lines ← Partly.need (narrowSigned 32 (next - last))
    let lineStep ← Partly.of (compressedInt lines)
    let columns ← Partly.need (narrowSigned 32 (p.startColumn.toNat - column.toNat))
    return lineStep ++ (← Partly.of (compressedInt columns))

def strictEncodeRest (c : Context) (p : SequencePoint) : Partly Bytes :=
  if p.isHidden then return [0, 0] else do return (← strictEncodeExtent p) ++ (← strictEncodeStart c p)

def strictEncodePoint (c : Context) (p : SequencePoint) : Partly (Bytes × Context) := do
  let document ← Partly.of (encodeDocument c p)
  let offset ← strictEncodeOffset c p
  let rest ← strictEncodeRest c p
  return (document ++ offset ++ rest, c.after p)

def strictEncodePoints (c : Context) : List SequencePoint → Partly Bytes
  | [] => return []
  | p :: ps => do
    let (record, c) ← strictEncodePoint c p
    return record ++ (← strictEncodePoints c ps)

def strictEncode (s : SequencePoints) (document : UInt32) : Partly Bytes := do
  let localSignature ← Partly.of (compressed s.localSignature.toNat)
  if document == 0 then
    match s.points with
    | [] => Partly.of (fault .noDocument)
    | p :: _ =>
      let first ← Partly.of (compressed p.document.toNat)
      return localSignature ++ first ++ (← strictEncodePoints { document := p.document } s.points)
  else return localSignature ++ (← strictEncodePoints { document } s.points)

theorem gives_encodeOffset (c : Context) (p : SequencePoint) : (strictEncodeOffset c p).Gives (encodeOffset c p) := by
  unfold strictEncodeOffset encodeOffset
  cases c.offset? with
  | none => exact .of _
  | some last =>
    refine .ite (fun later => .need (Partly.minus_of_le (Nat.le_of_lt ?_)) (.of _)) fun _ => .of _
    exact UInt32.lt_iff_toNat_lt.mp later

/-- Differences of columns are small. -/
theorem narrowSigned_columns (a b : UInt16) :
    narrowSigned 32 ((a.toNat : Int) - b.toNat) = some ((a.toNat : Int) - b.toNat) := by
  have first := a.toNat_lt
  have second := b.toNat_lt
  exact Partly.narrowSigned_of_fits (by omega) (by omega)

theorem gives_fault {α β : Type} (f : EmissionFault) (k : α → Partly β) (k' : α → Result β) :
    Gives (Partly.of (fault f) >>= k) (fault f >>= k') := rfl

theorem gives_encodeExtent (p : SequencePoint) : (strictEncodeExtent p).Gives (encodeExtent p) := by
  have startColumn := p.startColumn.toNat_lt
  have endColumn := p.endColumn.toNat_lt
  unfold strictEncodeExtent encodeExtent
  refine .ite (fun _ => gives_fault _ _ _) fun lines => ?_
  rw [Bool.or_eq_true, Bool.or_eq_true, not_or, not_or, decide_eq_true_eq, UInt32.lt_iff_toNat_lt, Nat.not_lt] at lines
  refine .need (Partly.minus_of_le lines.1.1) (.need (narrowSigned_columns _ _) ?_)
  refine .ite (fun _ => gives_fault _ _ _) fun columns => ?_
  refine (Gives.of _).bind fun first _ => .ite (fun same => ?_) fun _ => (Gives.of _).bind fun second _ => .pure _
  rw [same, Bool.true_and, decide_eq_true_eq] at columns
  exact .need (Partly.narrow_of_nonneg (by omega) (by omega)) ((Gives.of _).bind fun second _ => .pure _)

/-- Lines of points that were checked are numbers of 29 bits. -/
theorem gives_encodeStart {c : Context} {p : SequencePoint} (extent : Extent p)
    (known : ∀ start, c.start? = some start → start.1.toNat ≤ PointAt.maxLine) :
    (strictEncodeStart c p).Gives (encodeStart c p) := by
  have most : PointAt.maxLine < 2 ^ 29 := by decide
  have order := extent.order
  have stop := extent.stop
  unfold strictEncodeStart encodeStart
  cases shape : c.start? with
  | none => exact (Gives.of _).bind fun first _ => (Gives.of _).bind fun second _ => .pure _
  | some start =>
    have last := known start shape
    refine .need (Partly.narrowSigned_of_fits (by omega) (by omega)) ?_
    refine .need (Partly.narrowSigned_of_fits (by omega) (by omega)) ?_
    refine .need (Partly.narrowSigned_of_fits (by omega) (by omega)) ((Gives.of _).bind fun first _ => ?_)
    exact .need (narrowSigned_columns _ _) ((Gives.of _).bind fun second _ => .pure _)

theorem gives_encodePoint {c : Context} {p : SequencePoint}
    (known : ∀ start, c.start? = some start → start.1.toNat ≤ PointAt.maxLine) :
    (strictEncodePoint c p).Gives (encodePoint c p) := by
  have rest : (strictEncodeRest c p).Gives (encodeRest c p) := by
    refine .ite (fun _ => .pure _) fun _ => (gives_encodeExtent p).bind fun extent accepted => ?_
    exact (gives_encodeStart (encodeExtent_eq_ok accepted).1 known).bind fun start _ => .pure _
  rw [encodePoint_eq]
  exact (Gives.of _).bind fun document _ => (gives_encodeOffset c p).bind fun offset _ => rest.bind fun bytes _ => .pure _

theorem known_of_encodePoint {c next : Context} {p : SequencePoint} {record : Bytes}
    (run : encodePoint c p = .ok (record, next)) (known : ∀ start, c.start? = some start → start.1.toNat ≤ PointAt.maxLine) :
    ∀ start, next.start? = some start → start.1.toNat ≤ PointAt.maxLine := by
  rw [encodePoint_eq] at run
  obtain ⟨document, -, run⟩ := Outcome.bind_eq_ok.mp run
  obtain ⟨offset, -, run⟩ := Outcome.bind_eq_ok.mp run
  obtain ⟨rest, written, run⟩ := Outcome.bind_eq_ok.mp run
  cases Outcome.pure_eq_ok.mp run
  intro start found
  unfold Context.after at found
  dsimp only at found
  split at found
  · exact known start found
  · rename_i shown
    cases found
    rw [encodeRest, if_neg shown] at written
    obtain ⟨extent, accepted, -⟩ := Outcome.bind_eq_ok.mp written
    have inside := (encodeExtent_eq_ok accepted).1
    exact Nat.le_trans inside.order inside.stop

theorem gives_encodePoints {c : Context} {points : List SequencePoint}
    (known : ∀ start, c.start? = some start → start.1.toNat ≤ PointAt.maxLine) :
    (strictEncodePoints c points).Gives (encodePoints c points) := by
  induction points generalizing c with
  | nil => exact .pure []
  | cons p points ih =>
    refine (gives_encodePoint known).bind fun written run => ?_
    obtain ⟨record, next⟩ := written
    exact (ih (known_of_encodePoint run known)).bind fun others _ => .pure _

theorem gives_encode (s : SequencePoints) (document : UInt32) : (s.strictEncode document).Gives (s.encode document) := by
  have points (document : UInt32) : (strictEncodePoints { document } s.points).Gives (encodePoints { document } s.points) :=
    gives_encodePoints fun start none => by cases none
  refine (Gives.of _).bind fun localSignature _ => .ite (fun _ => ?_) fun _ => (points document).bind fun back _ => .pure _
  cases shape : s.points with
  | nil => exact .of _
  | cons p others =>
    rw [shape] at points
    exact (Gives.of _).bind fun first _ => (points p.document).bind fun back _ => .pure _

end SequencePoints

/-! Images -/

namespace Root

/-- The sizes of version and directory have fields of 32 and of 16 bits. -/
def strictBuild (version : String) (streams : List (String × Bytes)) : Partly Bytes := do
  let versionSize := versionFieldSize version
  if maxVersionSize < versionSize then Partly.malformed (.versionTooLong version)
  let rootSize := 20 + versionSize + (streams.map fun s => StreamHeader.diskSize s.1).sum
  let headers ← Partly.of (directory rootSize streams)
  let filling ← Partly.need (minus versionSize version.utf8ByteSize)
  let versionSize ← Partly.need (narrow 32 versionSize)
  let count ← Partly.need (narrow 16 streams.length)
  let start := u32Bytes magic ++ u16Bytes 1 ++ u16Bytes 1 ++ u32Bytes 0 ++ leBytes 4 versionSize
    ++ (utf8Bytes version ++ zeros filling) ++ u16Bytes 0 ++ leBytes 2 count
  return headers.foldl StreamHeader.appendTo start ++ streams.flatMap fun s => padTo 4 s.2

theorem gives_build (version : String) {streams : List (String × Bytes)} (few : streams.length < 2 ^ 16) :
    (strictBuild version streams).Gives (build version streams) := by
  refine .check fun short => (Gives.of _).bind fun headers _ => ?_
  have most : maxVersionSize < 2 ^ 32 := by decide
  have size : version.utf8ByteSize ≤ versionFieldSize version := by
    unfold versionFieldSize
    omega
  exact .need (Partly.minus_of_le size) (.need (Partly.narrow_of_lt (by omega)) (.need (Partly.narrow_of_lt few) (.pure _)))

end Root

namespace Module

def strictRowCounts (m : Module) : Option (List (Table × Nat)) := do
  let counts ← Table.ofModule.mapM fun t => do return (t, ← narrow 32 (m.rows t))
  return counts.filter fun (_, rows) => 0 < rows

theorem strictRowCounts_eq {m : Module} (counted : m.Counted) : m.strictRowCounts = some m.rowCounts := by
  have counts : (Table.ofModule.mapM fun t => do return (t, ← narrow 32 (m.rows t))) =
      some (Table.ofModule.map fun t => (t, m.rows t)) := by
    refine Partly.mapM_eq_some fun t _ => ?_
    exact (Partly.bind_of_eq_some (Partly.narrow_of_lt (Nat.lt_of_succ_lt (counted t))) _).trans rfl
  exact (Partly.bind_of_eq_some counts _).trans rfl

end Module

namespace ModuleStreams

def strictOfModule (m : Module) : Partly ModuleStreams := do
  let (rows, d) ← ModuleRows.strictOfModule m {}
  let counts ← Partly.need m.strictRowCounts
  let sizes := heapSizes d.strings.isLarge d.guids.isLarge d.blobs.isLarge
  let tables ← Partly.of (TableStreamBuilder.stream (.ofCounts counts sizes) rows.addTo)
  return {
    tables
    strings := d.strings.build
    userStrings := d.userStrings.build
    guids := d.guids.build
    blobs := d.blobs.build
    il := d.il
    offsets := rows.methods.map (·.offsets?) }

def strictImage (s : ModuleStreams) (version : String) (record? : Option CodeViewRecord) : Partly Bytes :=
  Root.strictBuild version (s.named record?)

theorem gives_ofModule {m : Module} (counted : m.Counted)
    (encodable : ∀ t ∈ m.types, ∀ d ∈ t.methods, d.AllBodies ModuleWriter.Encodable) :
    (strictOfModule m).Gives (ofModule m) := by
  have rows := ModuleRows.agrees_ofModule counted encodable {}
  unfold ofModule
  cases run : (ModuleRows.ofModule m).run {} with
  | error e d =>
    rw [show ModuleRows.ofModule m {} = .error e d from run] at rows
    exact rows.bind_error
  | ok found d =>
    rw [show ModuleRows.ofModule m {} = .ok found d from run] at rows
    exact rows.bind_ok (.need (Module.strictRowCounts_eq counted) ((Gives.of _).bind fun tables _ => .pure _))

theorem gives_image (s : ModuleStreams) (version : String) (record? : Option CodeViewRecord) :
    (s.strictImage version record?).Gives (s.image version record?) := by
  refine Root.gives_build version ?_
  cases record? with
  | none => exact (by decide : 6 < 2 ^ 16)
  | some record => exact (by decide : 7 < 2 ^ 16)

end ModuleStreams

namespace SymbolWriter

def strictStoredPoints (offsets : List Nat) (symbols : BodySymbols) : Option SequencePoints := do
  let points ← symbols.points.mapM fun p => do
    let offset ← offsets.toArray[p.place]?
    return p.map fun _ => .ofNat offset
  return ⟨symbols.localSignature, points⟩

def strictDebugRow (method : String) (body? : Option MethodBody) (offsets? : Option (List Nat)) :
    StrictWriter SymbolDraft MethodDebugRow := do
  match body?.bind (·.symbols?), offsets? with
  | some symbols, some offsets =>
    if symbols.points.isEmpty then return ⟨0, 0⟩
    let stored ← StrictWriter.need (strictStoredPoints offsets symbols)
    let document := stored.document?.getD 0
    match ← StrictWriter.need (stored.strictEncode document).run with
    | .ok blob => return ⟨document.toNat, ← .of (addBlob blob)⟩
    | .error e => throw (inMethod method e)
  | _, _ => return ⟨0, 0⟩

def strictRows (m : Module) (offsets : List (Option (List Nat))) :
    StrictWriter SymbolDraft (List DocumentRow × List MethodDebugRow) := do
  let documents ← .of (m.documents.mapM documentRow)
  let methods ← (m.methodList.zip offsets).mapM fun ((owner, d), offsets?) =>
    strictDebugRow (owner.methodText d.name) d.body? offsets?
  return (documents, methods)

theorem strictStoredPoints_eq {offsets : List Nat} {symbols : BodySymbols}
    (inside : ∀ p ∈ symbols.points, p.place < offsets.length) :
    strictStoredPoints offsets symbols = some (storedPoints offsets symbols) := by
  have points : (symbols.points.mapM fun p => do
      let offset ← offsets.toArray[p.place]?
      return p.map fun _ => UInt32.ofNat offset) =
      some (symbols.points.map fun p => p.map fun index => .ofNat (offsets.toArray[index]?.getD 0)) := by
    refine Partly.mapM_eq_some fun p member => ?_
    have bound := inside p member
    have found : offsets.toArray[p.place]? = some offsets[p.place] := by
      rw [List.getElem?_toArray, List.getElem?_eq_getElem bound]
    refine (Partly.bind_of_eq_some found _).trans ?_
    rw [PointAt.map, PointAt.map, found]
    rfl
  exact (Partly.bind_of_eq_some points _).trans rfl

theorem agrees_debugRow (method : String) {documents : Nat} {body? : Option MethodBody}
    (placed : ∀ b, body? = some b → b.Placed documents) :
    Agrees (strictDebugRow method body? (body?.map fun b => offsets (promote b.code)))
      (debugRow method body? (body?.map fun b => offsets (promote b.code))) := by
  unfold strictDebugRow debugRow
  cases body? with
  | none => exact .pure _
  | some b =>
    rw [Option.bind_some, Option.map_some]
    cases own : b.symbols? with
    | none => exact .pure _
    | some symbols =>
      have inside : ∀ p ∈ symbols.points, p.place < (offsets (promote b.code)).length := by
        intro p member
        have named := MethodBody.names_of_checkPoints ((placed b rfl).points symbols own) p member
        rw [length_offsets, ← (widened_promote b.code).length_eq]
        exact Nat.lt_succ_of_lt named.place
      refine .ite (fun _ => .pure _) fun _ => .need (strictStoredPoints_eq inside) ?_
      refine .need (SequencePoints.gives_encode _ _) ?_
      dsimp only
      cases (storedPoints (offsets (promote b.code)) symbols).encode _ with
      | ok blob => exact (Agrees.of _).bind fun _ => .pure _
      | error e => exact .throw _

theorem agrees_rows {m : Module}
    (placed : ∀ method ∈ m.methodList, ∀ b, method.2.body? = some b → b.Placed m.documents.length) :
    Agrees (strictRows m m.offsets) (rows m m.offsets) := by
  refine (Agrees.of _).bind fun documents => ?_
  unfold Module.offsets
  rw [zip_methodList]
  refine Agrees.bind (.mapM fun pair member => ?_) fun methods => .pure _
  obtain ⟨method, listed, rfl⟩ := List.mem_map.mp member
  exact agrees_debugRow _ (placed method listed)

end SymbolWriter

namespace SymbolStreams

def strictOfModule (m : Module) (offsets : List (Option (List Nat))) : Partly SymbolStreams := do
  let ((documents, methods), d) ← SymbolWriter.strictRows m offsets {}
  let documentCount ← Partly.need (narrow 32 documents.length)
  let methodCount ← Partly.need (narrow 32 methods.length)
  let counts := [(Table.document, documentCount), (.methodDebugInformation, methodCount)]
  let layout := Layout.ofCounts counts (heapSizes false d.guids.isLarge d.blobs.isLarge)
  let tables ← Partly.of (TableStreamBuilder.stream layout do
    TableStreamBuilder.add documents
    TableStreamBuilder.add methods)
  let rows ← Partly.need m.strictRowCounts
  return {
    entryPoint := m.entryPoint
    rows := rows.map fun (t, rows) => (t, .ofNat rows)
    tables
    guids := d.guids.build
    blobs := d.blobs.build }

def strictImage (s : SymbolStreams) (id : ImageId) : Partly Bytes := Root.strictBuild version (s.named id)

theorem gives_ofModule {m : Module} (counted : m.Counted)
    (placed : ∀ method ∈ m.methodList, ∀ b, method.2.body? = some b → b.Placed m.documents.length) :
    (strictOfModule m m.offsets).Gives (ofModule m m.offsets) := by
  have rows := SymbolWriter.agrees_rows placed {}
  unfold ofModule
  cases run : (SymbolWriter.rows m m.offsets).run {} with
  | error e d =>
    rw [show SymbolWriter.rows m m.offsets {} = .error e d from run] at rows
    exact rows.bind_error
  | ok found d =>
    obtain ⟨-, -, describes⟩ := SymbolWriter.writes_rows m m.offsets {} found d SymbolDraft.sound_empty run
    obtain ⟨debugs, described⟩ := describes d (SymbolDraft.Grows.refl d)
    have documents : found.1.length < 2 ^ 32 := by
      rw [← described.documents.length_eq]
      exact Nat.lt_of_succ_lt (counted .document)
    have methods : found.2.length < 2 ^ 32 := by
      rw [← described.methods.length_eq, ← described.stored.length_eq]
      unfold Module.offsets
      rw [SymbolWriter.zip_methodList, List.length_map, Module.length_methodList]
      exact Nat.lt_of_succ_lt (counted .methodDef)
    rw [show SymbolWriter.rows m m.offsets {} = .ok found d from run] at rows
    refine rows.bind_ok (.need (Partly.narrow_of_lt documents) (.need (Partly.narrow_of_lt methods) ?_))
    exact (Gives.of _).bind fun tables _ => .need (Module.strictRowCounts_eq counted) (.pure _)

theorem gives_image (s : SymbolStreams) (id : ImageId) : (s.strictImage id).Gives (s.image id) :=
  Root.gives_build version (by decide : 4 < 2 ^ 16)

end SymbolStreams

namespace Module

def strictImages (m : Module) (file : SymbolFile) (streams : ModuleStreams) (symbols : SymbolStreams) (id : ImageId) :
    Partly EmittedModule := do
  let code ← streams.strictImage m.runtimeVersion (some ⟨id, file.age, file.path⟩)
  return ⟨code, ← symbols.strictImage id⟩

def strictEmit (digest : Bytes → ImageId) (m : Module) : Partly EmittedModule := do
  let streams ← ModuleStreams.strictOfModule m
  match m.symbols? with
  | none => return ⟨← streams.strictImage m.runtimeVersion none, []⟩
  | some file => do
    let symbols ← SymbolStreams.strictOfModule m streams.offsets
    let blank ← m.strictImages file streams symbols .zero
    m.strictImages file streams symbols (digest (blank.code ++ blank.symbols))

/-- Code that is accepted takes less than four gigabytes a body, and rows are counted in 32 bits. -/
structure Measured (m : Module) : Prop where
  rows : m.Counted
  code : ∀ t ∈ m.types, ∀ d ∈ t.methods,
    d.AllBodies fun b => Code.check b.code = .ok () → codeSize (promote b.code) < 2 ^ 32

/-- In code that is accepted each distance fits. -/
def AllReach (m : Module) : Prop :=
  ∀ t ∈ m.types, ∀ d ∈ t.methods, d.AllBodies fun b => Code.check b.code = .ok () → Code.Reaches (promote b.code)

variable {m : Module}

theorem gives_images (file : SymbolFile) (streams : ModuleStreams) (symbols : SymbolStreams) (id : ImageId) :
    (m.strictImages file streams symbols id).Gives (m.images file streams symbols id) :=
  (streams.gives_image _ _).bind fun _ _ => (symbols.gives_image id).bind fun _ _ => .pure _

/-- Any module is written or refused, and nothing is out of range on the way, if distances fit. -/
theorem gives_emit (measured : m.Measured) (reaches : m.AllReach) (digest : Bytes → ImageId) :
    (m.strictEmit digest).Gives (m.emit digest) := by
  have encodable : ∀ t ∈ m.types, ∀ d ∈ t.methods, d.AllBodies ModuleWriter.Encodable :=
    fun t type d member b body => ⟨measured.code t type d member b body, reaches t type d member b body⟩
  refine (ModuleStreams.gives_ofModule measured.rows encodable).bind fun streams made => ?_
  have offsets := (ModuleStreams.within_of_ok made).1
  cases m.symbols? with
  | none => exact (streams.gives_image _ _).bind fun code _ => .pure _
  | some file =>
    rw [offsets]
    refine (SymbolStreams.gives_ofModule measured.rows (placed_of_ok made)).bind fun symbols _ => ?_
    exact (gives_images file streams symbols .zero).bind fun blank _ => gives_images file streams symbols _

/-- A module is written with nothing out of range on the way iff the distances in its code fit. -/
theorem gives_emit_iff (measured : m.Measured) {digest : Bytes → ImageId} {e : EmittedModule}
    (emitted : m.emit digest = .ok e) : (m.strictEmit digest).Gives (.ok e) ↔ m.AllReach := by
  refine ⟨fun gives t type d member b body => ?_, fun reaches => emitted ▸ gives_emit measured reaches digest⟩
  obtain ⟨streams, made, -⟩ := (Partly.gives_bind_iff.mp gives).resolve_right (by rintro ⟨_, -, failed⟩; cases failed)
  obtain ⟨rows, written, -⟩ := (Partly.gives_bind_iff.mp made).resolve_right (by rintro ⟨_, -, failed⟩; cases failed)
  exact ModuleRows.presumes_ofModule type member body (measured.code t type d member b body) {} rows written

/-- Two gigabytes of code a body are never too much. -/
theorem gives_emit_of_small (rows : m.Counted) (code : ∀ t ∈ m.types, ∀ d ∈ t.methods,
    d.AllBodies fun b => Code.check b.code = .ok () → codeSize (promote b.code) < 2 ^ 31) (digest : Bytes → ImageId) :
    (m.strictEmit digest).Gives (m.emit digest) := by
  refine gives_emit ⟨rows, fun t type d member b body accepted => ?_⟩ (fun t type d member b body accepted => ?_) digest
  · exact Nat.lt_trans (code t type d member b body accepted) (by decide)
  · exact reaches_of_small (valid_of_check.mp accepted).promote (code t type d member b body accepted)

end Module

namespace Sample

/-- A branch over a jump table. -/
def jumpOver (entries : List Nat) : MethodBody := { code := [⟨⟨0x38⟩, .target 2⟩, ⟨⟨0x45⟩, .switch entries⟩, .ret] }

section

variable {entries : List Nat}

theorem promote_jumpOver (entries : List Nat) : promote (jumpOver entries).code = (jumpOver entries).code :=
  promote_of_promoteOnce ((countP_zipWith_widen _ (length_tail_offsets _)).resolve_right (Nat.not_lt_zero _))

theorem codeSize_jumpOver (entries : List Nat) : codeSize (jumpOver entries).code = 4 * entries.length + 11 := by
  change 5 + ((1 + (4 + 4 * entries.length)) + (1 + 0)) = _
  omega

theorem storable_jumpOver (m : Module) (inside : ∀ t ∈ entries, t < 3) (few : entries.length ≤ 2 ^ 29) :
    (jumpOver entries).Storable m := by
  have each : ∀ i ∈ (jumpOver entries).code, WellFormed i ∧ i.operand.token? = none ∧ ∀ t ∈ i.targets, t < 3 := by
    simp only [jumpOver, List.forall_mem_cons]
    refine ⟨⟨⟨_, rfl, rfl⟩, rfl, fun t target => ?_⟩, ⟨⟨_, rfl, rfl⟩, rfl, inside⟩,
      ⟨⟨_, rfl, rfl⟩, rfl, List.forall_mem_nil _⟩, List.forall_mem_nil _⟩
    rw [List.mem_singleton.mp target]
    decide
  have valid : Valid (jumpOver entries).code := ⟨fun i member => (each i member).1, fun i member => (each i member).2.2⟩
  have placed : (jumpOver entries).Placed m.documents.length :=
    ⟨List.forall_mem_nil _, fun _ impossible => by cases impossible⟩
  have named : (jumpOver entries).Named m := by
    refine ⟨fun i member token same => ?_, List.forall_mem_nil _, .inl rfl⟩
    rw [(each i member).2.1] at same
    cases same
  refine ⟨⟨⟨valid, placed, named⟩, show 4 + 24 * 0 ≤ 0x00FFFFFF by decide⟩, ?_⟩
  rw [promote_jumpOver, codeSize_jumpOver]
  omega

theorem not_reaches_jumpOver (many : 2 ^ 29 ≤ entries.length) : ¬ Reaches (promote (jumpOver entries).code) := by
  rw [promote_jumpOver]
  intro reaches
  have fits := reaches [] _ _ rfl 2 (List.mem_singleton_self 2)
  rw [distance_offsets _ _ (by decide : 2 ≤ 3)] at fits
  have far : ((5 + ((1 + (4 + 4 * entries.length)) + 0) : Nat) : Int) - (5 : Nat) < 2 ^ 31 := fits.2
  omega

/-- A method without a body, in a module of its own. -/
def lone : Module :=
  { name := "m"
    types := [{ flags := 0, namespaceName := "", name := "T", baseType := .null, fields := []
                methods := [{ flags := 0x10, implFlags := 0, name := "f", signature := [0, 0, 1], params := []
                              body? := none }] }] }

def jumping (entries : List Nat) : Module := lone.mapBodies fun _ => some (jumpOver entries)

theorem emit_jumping (inside : ∀ t ∈ entries, t < 3) (few : entries.length ≤ 2 ^ 29) :
    ∃ e, (jumping entries).emit (fun _ => .zero) = .ok e := by
  obtain ⟨e, emitted, -⟩ : ∃ e, lone.emit (fun _ => .zero) = .ok e ∧ true = true := Outcome.exists_of_any (by decide +kernel)
  obtain ⟨streams, made, small⟩ : ∃ streams, ModuleStreams.ofModule lone = .ok streams ∧
      decide (streams.strings.length + streams.guids.length + streams.blobs.length ≤ 100) = true :=
    Outcome.exists_of_any (by decide +kernel)
  rw [decide_eq_true_eq] at small
  have version : Root.versionFieldSize lone.runtimeVersion ≤ 16 := by decide
  have tables : tableSpace (Table.ofModule.map fun t => (t, lone.rows t)) ≤ 1000 := by decide
  have code : (jumping entries).codeSpace = 4 + (3 + (12 + codeSize (promote (jumpOver entries).code) + 7)) := rfl
  rw [promote_jumpOver, codeSize_jumpOver] at code
  have storable : ∀ method ∈ lone.types.flatMap (·.methods), ∀ b, some (jumpOver entries) = some b → b.Storable lone := by
    rintro _ _ b ⟨⟩
    exact storable_jumpOver lone inside few
  have adds := UserStringHeapBuilder.adds_nil {}
  have empty : ({} : UserStringHeapBuilder).data.length = 1 := rfl
  have reach := Module.inReach_others made rfl storable adds (by unfold jumping at code; omega)
  exact Module.emit_others emitted ⟨storable, (fun present => by cases present), _, adds⟩ reach

end

end Sample

/-- A branch over two gigabytes of a jump table is written, although its distance does not fit. -/
theorem Module.exists_distance_out_of_range : ∃ (m : Module) (e : EmittedModule),
    m.Measured ∧ m.emit (fun _ => .zero) = .ok e ∧ ¬ (m.strictEmit fun _ => .zero).Gives (.ok e) := by
  let entries := List.replicate (2 ^ 29) 0
  have inside : ∀ t ∈ entries, t < 3 := fun t member => by
    rw [List.eq_of_mem_replicate member]
    decide
  have count : entries.length = 2 ^ 29 := List.length_replicate
  have storable := Sample.storable_jumpOver Sample.lone inside (Nat.le_of_eq count)
  have measured : (Sample.jumping entries).Measured := by
    refine ⟨fun t => ?_, fun t type d member b body _ => ?_⟩
    · unfold Sample.jumping
      rw [rows_mapBodies]
      cases t <;> decide
    · rw [List.mem_singleton.mp type] at member
      rw [List.mem_singleton.mp member] at body
      cases body
      exact storable.size
  obtain ⟨e, emitted⟩ := Sample.emit_jumping inside (Nat.le_of_eq count)
  refine ⟨Sample.jumping entries, e, measured, emitted, fun gives => ?_⟩
  have reaches := (gives_emit_iff measured emitted).mp gives
  refine Sample.not_reaches_jumpOver (Nat.le_of_eq count.symm) (reaches _ List.mem_cons_self _ List.mem_cons_self _ rfl ?_)
  exact valid_of_check.mpr storable.writable.checked.valid

end CilWeaver
