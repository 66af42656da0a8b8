import CilWeaver.Debug.DocumentName
import CilWeaver.Debug.PdbStream
import CilWeaver.Debug.SequencePoints
import CilWeaver.Image.ModuleStreams

/-!
The streams of the symbol image that is written for a module: its documents and, for each method,
the source points of its body.
-/

namespace CilWeaver

/-- The heaps of a symbol image, as far as they are written. -/
structure SymbolDraft where
  guids : GuidHeapBuilder := {}
  blobs : BlobHeapBuilder := {}

abbrev SymbolWriter := EStateM Error SymbolDraft

namespace SymbolWriter

def onBlobs {α : Type} (action : EStateM Error BlobHeapBuilder α) : SymbolWriter α := fun d =>
  match action d.blobs with
  | .ok a blobs => .ok a { d with blobs }
  | .error e blobs => .error e { d with blobs }

def addGuid (guid : Guid) : SymbolWriter Nat := fun d =>
  match GuidHeapBuilder.add guid d.guids with
  | .ok a guids => .ok a { d with guids }
  | .error e guids => .error e { d with guids }

def addBlob (blob : Bytes) : SymbolWriter Nat := onBlobs (BlobHeapBuilder.add blob)

def documentRow (document : Document) : SymbolWriter DocumentRow := do
  let name ← onBlobs (DocumentName.add document.name)
  let hashAlgorithm ← addGuid document.hashAlgorithm
  let hash ← addBlob document.hash
  return { name, hashAlgorithm, hash, language := ← addGuid document.language }

/-- The stored form of the points of a body whose instructions have the given offsets. -/
def storedPoints (offsets : List Nat) (symbols : BodySymbols) : SequencePoints :=
  let offsets := offsets.toArray
  ⟨symbols.localSignature,
    symbols.points.map fun p => p.map fun index => .ofNat (offsets[index]?.getD 0)⟩

/-- A failure to store points is one of the method they belong to. -/
def inMethod (method : String) : Error → Error
  | .emission _ fault => .emission method fault
  | e => e

/-- The row of a method, whose instructions have the given offsets if it has a body. A method
    without points has an empty row. -/
def debugRow (method : String) (body? : Option MethodBody) (offsets? : Option (List Nat)) :
    SymbolWriter MethodDebugRow := do
  match body?.bind (·.symbols?), offsets? with
  | some symbols, some offsets =>
    if symbols.points.isEmpty then return ⟨0, 0⟩
    let stored := storedPoints offsets symbols
    let document := stored.document?.getD 0
    match stored.encode document with
    | .ok blob => return ⟨document.toNat, ← addBlob blob⟩
    | .error e => throw (inMethod method e)
  | _, _ => return ⟨0, 0⟩

/-- The rows of the documents and methods of a module. -/
def rows (m : Module) (offsets : List (Option (List Nat))) :
    SymbolWriter (List DocumentRow × List MethodDebugRow) := do
  let documents ← m.documents.mapM documentRow
  let methods ← (m.methodList.zip offsets).mapM fun ((owner, d), offsets?) =>
    debugRow (owner.methodText d.name) d.body? offsets?
  return (documents, methods)

end SymbolWriter

structure SymbolStreams where
  entryPoint : Token
  rows : List (Table × UInt32)
  tables : Bytes
  guids : Bytes
  blobs : Bytes

namespace SymbolStreams

/-- The version text of symbol images. -/
def version : String := "PDB v1.0"

def ofModule (m : Module) (offsets : List (Option (List Nat))) : Result SymbolStreams :=
  match (SymbolWriter.rows m offsets).run {} with
  | .error e _ => .error e
  | .ok (documents, methods) d => do
    let counts := [(Table.document, documents.length), (.methodDebugInformation, methods.length)]
    let layout := Layout.ofCounts counts (heapSizes false d.guids.isLarge d.blobs.isLarge)
    let tables ← TableStreamBuilder.stream layout do
      TableStreamBuilder.add documents
      TableStreamBuilder.add methods
    return {
      entryPoint := m.entryPoint
      rows := m.rowCounts.map fun (t, rows) => (t, .ofNat rows)
      tables
      guids := d.guids.build
      blobs := d.blobs.build }

/-- The image with the given identifier. -/
def image (s : SymbolStreams) (id : ImageId) : Result Bytes :=
  let pdb : PdbStream := ⟨id, s.entryPoint, s.rows⟩
  Root.build version
    [(StreamName.pdb, pdb.build), (StreamName.tables, s.tables), (StreamName.guids, s.guids),
     (StreamName.blobs, s.blobs)]

end SymbolStreams

end CilWeaver
