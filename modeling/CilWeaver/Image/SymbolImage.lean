import CilWeaver.Debug.DocumentName
import CilWeaver.Debug.PdbStream
import CilWeaver.Debug.SequencePoints
import CilWeaver.Heap.Guids
import CilWeaver.Image.Root
import CilWeaver.Instruction.Decode
import CilWeaver.Module.Basic

/-!
The parts of a symbol image: the documents and, for each method, the stored source points.
-/

namespace CilWeaver

/-- What a symbol image stores about a method; `document` is zero when the blob names documents. -/
structure MethodDebug where
  document : Nat
  points : Bytes
deriving DecidableEq

structure SymbolImage where
  documents : List Document
  entryPoint : Token
  methods : List MethodDebug

namespace SymbolImage

/-- Checks that the symbols were written for a module with this number of methods. -/
def checkMethodCount (pdb : PdbStream) (methodCount : Nat) : Result Unit :=
  match pdb.rows? .methodDef with
  | some rows =>
    if rows.toNat = methodCount then .ok ()
    else .error (.malformed (.symbolsMethodCount rows.toNat methodCount))
  | none => if methodCount = 0 then .ok () else .error (.malformed .symbolsUncounted)

def document (blobs : BlobHeap) (guids : GuidHeap) (row : DocumentRow) : Result Document := do
  return {
    name := ← DocumentName.parse blobs (← blobs.get row.name)
    hashAlgorithm := ← guids.get row.hashAlgorithm
    hash := ← blobs.get row.hash
    language := ← guids.get row.language }

/-- Reads the symbols of the module with the given identifier and number of methods. -/
def parse (id : ImageId) (methodCount : Nat) (data : Bytes) : Result SymbolImage := do
  let root ← Root.parse data
  let stream (name : String) : Result Bytes :=
    match root.stream? data name with
    | some stream => .ok stream
    | none => .error (.malformed (.missingSymbolStream name))
  let pdb ← PdbStream.parse (← stream StreamName.pdb)
  if pdb.id ≠ id then .error (.malformed .symbolsMismatch)
  checkMethodCount pdb methodCount
  let blobs ← BlobHeap.parse (← stream StreamName.blobs)
  let guids ← GuidHeap.parse (← stream StreamName.guids)
  let tables ← TableStream.parse Table.ofSymbols (← stream StreamName.tables)
  let documents ← (← tables.rows DocumentRow).mapM (document blobs guids)
  let rows ← tables.rows MethodDebugRow
  if rows.length ≠ 0 ∧ rows.length ≠ methodCount then
    .error (.malformed (.debugRowCount rows.length methodCount))
  let methods ← rows.mapM fun row => do
    return (⟨row.document, ← blobs.get row.points⟩ : MethodDebug)
  return ⟨documents, pdb.entryPoint, methods⟩

def checkDocument (symbols : SymbolImage) (method : String) (document : Nat) : Result Unit :=
  if document = 0 ∨ symbols.documents.length < document then
    .error (.malformed (.pointDocument method document))
  else .ok ()

/-- Ties a stored point to the instruction at its offset. -/
def place (symbols : SymbolImage) (decoded : DecodedBody) (method : String) (p : SequencePoint) :
    Result SourcePoint := do
  symbols.checkDocument method p.document.toNat
  match decoded.indexOf? p.place.toNat with
  | some index => return p.map fun _ => index
  | none => .error (.malformed (.pointOffset method p.place.toNat))

/-- The source points of the method with the given position among all methods, whose body is
    `decoded?` if it has one. -/
def bodySymbols (symbols : SymbolImage) (position : Nat) (decoded? : Option DecodedBody)
    (method : String) : Result (Option BodySymbols) :=
  match symbols.methods[position]? with
  | none => .ok none
  | some debug =>
    if debug.points.isEmpty then .ok none
    else match decoded? with
      | none => .error (.malformed (.pointsWithoutBody method))
      | some decoded => do
        if debug.document ≠ 0 then symbols.checkDocument method debug.document
        let stored ← SequencePoints.parse debug.points (.ofNat debug.document)
        let points ← stored.points.mapM (symbols.place decoded method)
        return some ⟨stored.localSignature, points⟩

end SymbolImage

end CilWeaver
