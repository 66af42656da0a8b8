import CilWeaver.Debug.CodeView
import CilWeaver.Heap.Blobs
import CilWeaver.Heap.Guids
import CilWeaver.Heap.Strings
import CilWeaver.Heap.UserStrings
import CilWeaver.Image.Root
import CilWeaver.Table.Stream

/-!
The parts of a module image: heaps, code and the rows of the tables. Parsing checks that references
between rows name rows, and that the rows of fields, methods and parameters are divided into runs,
one run for each owner.
-/

namespace CilWeaver

/-- A range of items of a list, counted from zero; `stop` is the item behind it. -/
structure Run where
  start : Nat
  stop : Nat
deriving DecidableEq, Repr

namespace Run

def length (r : Run) : Nat := r.stop - r.start

def slice {α : Type} (r : Run) (items : List α) : List α := (items.drop r.start).take r.length

/-- The runs of the owners from `row` on whose first items are given, counted from one; `total` is
    the number of all items. A run ends where the next one starts. -/
def fromRow (column : ListColumn) (total : Nat) : (row : Nat) → List Nat → Result (List Run)
  | _, [] => .ok []
  | row, start :: starts => do
    if start = 0 ∨ total + 1 < start then .error (.malformed (.listStart column row start total))
    else
      let stop := starts.head?.getD (total + 1)
      if stop < start ∨ total + 1 < stop then .error (.malformed (.listOrder column row))
      else return ⟨start - 1, stop - 1⟩ :: (← fromRow column total (row + 1) starts)

def ofStarts (column : ListColumn) (total : Nat) (starts : List Nat) : Result (List Run) :=
  fromRow column total 1 starts

end Run

structure ModuleImage where
  version : String
  strings : StringHeap
  userStrings? : Option UserStringHeap
  blobs : BlobHeap
  guids : GuidHeap
  il : Bytes
  codeView? : Option CodeViewRecord
  layout : Layout
  moduleRow : ModuleRow
  assembly? : Option AssemblyRow
  typeRefs : List TypeRefRow
  typeDefs : List TypeDefRow
  fields : List FieldRow
  methods : List MethodDefRow
  params : List ParamRow
  memberRefs : List MemberRefRow
  signatures : List StandAloneSigRow
  assemblyRefs : List AssemblyRefRow

namespace ModuleImage

/-- The number of zero bytes at the start of the code stream. -/
def reservedCode : Nat := 4

/-- Whether the token names a row of the image. -/
def contains (image : ModuleImage) (token : Token) : Bool :=
  match token.table? with
  | some table => 1 ≤ token.row && token.row ≤ image.layout.rows table
  | none => false

def checkReference (image : ModuleImage) (nullable : Bool) (column : ReferenceColumn)
    (index : CodedIndex) : Result Unit :=
  if index.isNull then
    if nullable then .ok () else .error (.malformed (.nullReference column))
  else if image.contains index.token then .ok ()
  else .error (.malformed (.danglingReference column index.token))

def fieldRuns (image : ModuleImage) : Result (List Run) :=
  Run.ofStarts .fields image.fields.length (image.typeDefs.map (·.firstField))

def methodRuns (image : ModuleImage) : Result (List Run) :=
  Run.ofStarts .methods image.methods.length (image.typeDefs.map (·.firstMethod))

def paramRuns (image : ModuleImage) : Result (List Run) :=
  Run.ofStarts .params image.params.length (image.methods.map (·.firstParam))

/-- Checks references in the order of the tables, then the runs. -/
def checkIndices (image : ModuleImage) : Result Unit := do
  image.typeRefs.zipIdx.forM fun (r, i) => image.checkReference false (.scope (i + 1)) r.scope
  image.typeDefs.zipIdx.forM fun (r, i) => image.checkReference true (.baseType (i + 1)) r.baseType
  image.memberRefs.zipIdx.forM fun (r, i) => image.checkReference false (.parent (i + 1)) r.parent
  let _ ← image.fieldRuns
  let _ ← image.methodRuns
  let _ ← image.paramRuns

/-- The code stream is empty, or it starts with reserved zero bytes. -/
def checkCode (il : Bytes) : Result Unit :=
  if il.isEmpty || il.take reservedCode == zeros reservedCode then .ok ()
  else .error (.malformed .ilReserved)

/-- The only row of the table that describes the module. -/
def singleModule : List ModuleRow → Result ModuleRow
  | [row] => .ok row
  | rows => .error (.malformed (.moduleRows rows.length))

/-- The row that describes the assembly, if there is one. -/
def optionalAssembly : List AssemblyRow → Result (Option AssemblyRow)
  | [] => .ok none
  | [row] => .ok (some row)
  | rows => .error (.malformed (.assemblyRows rows.length))

/-- The parts of the image. References between rows are not checked yet. -/
def parseParts (data : Bytes) : Result ModuleImage := do
  let root ← Root.parse data
  let stream? (name : String) : Option Bytes := root.stream? data name
  let required (name : String) : Result Bytes :=
    match stream? name with
    | some stream => .ok stream
    | none => .error (.malformed (.missingStream name))
  if (stream? StreamName.pdb).isSome then .error (.malformed .pdbStreamInModule)
  let strings ← StringHeap.parse (← required StreamName.strings)
  let blobs ← BlobHeap.parse (← required StreamName.blobs)
  let guids ← GuidHeap.parse (← required StreamName.guids)
  let userStrings? ← (stream? StreamName.userStrings).mapM UserStringHeap.parse
  let il := (stream? StreamName.il).getD []
  checkCode il
  let codeView? ← (stream? StreamName.codeView).mapM CodeViewRecord.parse
  let tables ← TableStream.parse Table.ofModule (← required StreamName.tables)
  let moduleRow ← singleModule (← tables.rows ModuleRow)
  let assembly? ← optionalAssembly (← tables.rows AssemblyRow)
  return {
    version := root.version, strings, userStrings?, blobs, guids, il, codeView?,
    layout := tables.layout, moduleRow, assembly?,
    typeRefs := ← tables.rows TypeRefRow
    typeDefs := ← tables.rows TypeDefRow
    fields := ← tables.rows FieldRow
    methods := ← tables.rows MethodDefRow
    params := ← tables.rows ParamRow
    memberRefs := ← tables.rows MemberRefRow
    signatures := ← tables.rows StandAloneSigRow
    assemblyRefs := ← tables.rows AssemblyRefRow }

def parse (data : Bytes) : Result ModuleImage := do
  let image ← parseParts data
  image.checkIndices
  return image

def string (image : ModuleImage) (index : Nat) : Result String := image.strings.get index

def blob (image : ModuleImage) (index : Nat) : Result Bytes := image.blobs.get index

/-- The string literal with the given index. -/
def literal (image : ModuleImage) (index : Nat) : Result String :=
  match image.userStrings? with
  | none => .error (.malformed .literalWithoutHeap)
  | some heap =>
    match heap.get index with
    | .ok text => .ok text
    | .error _ => .error (.malformed (.literalIndex index))

end ModuleImage

end CilWeaver
