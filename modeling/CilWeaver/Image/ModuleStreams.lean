import CilWeaver.Debug.CodeView
import CilWeaver.Heap.Blobs
import CilWeaver.Heap.Guids
import CilWeaver.Heap.Strings
import CilWeaver.Heap.UserStrings
import CilWeaver.Image.Root
import CilWeaver.Instruction.Encode
import CilWeaver.Module.Clause
import CilWeaver.Module.Basic
import CilWeaver.Table.Stream

/-!
The streams of the module image that is written for a module. Rows are written in the order of the
module, and heaps and code grow along with them.
-/

namespace CilWeaver

/-- The heaps and the code that the rows refer to, as far as they are written. -/
structure ModuleDraft where
  strings : StringHeapBuilder := {}
  userStrings : UserStringHeapBuilder := {}
  guids : GuidHeapBuilder := {}
  blobs : BlobHeapBuilder := {}
  il : Bytes := zeros ModuleImage.reservedCode

abbrev ModuleWriter := EStateM Error ModuleDraft

/-- A method in the tables, and where its instructions start. -/
structure MethodRows where
  row : MethodDefRow
  params : List ParamRow
  offsets? : Option (List Nat)

/-- A type in the tables. -/
structure TypeRows where
  row : TypeDefRow
  fields : List FieldRow
  methods : List MethodRows

namespace ModuleWriter

/-- Runs an action on a part of the draft. -/
def onPart {σ α : Type} (part : ModuleDraft → σ) (replace : σ → ModuleDraft → ModuleDraft)
    (action : EStateM Error σ α) : ModuleWriter α := fun d =>
  match action (part d) with
  | .ok a s => .ok a (replace s d)
  | .error e s => .error e (replace s d)

def addString (text : String) : ModuleWriter Nat :=
  onPart (·.strings) (fun strings d => { d with strings }) (StringHeapBuilder.add text)

def addLiteral (text : String) : ModuleWriter Nat :=
  onPart (·.userStrings) (fun userStrings d => { d with userStrings })
    (UserStringHeapBuilder.add text)

def addGuid (guid : Guid) : ModuleWriter Nat :=
  onPart (·.guids) (fun guids d => { d with guids }) (GuidHeapBuilder.add guid)

def addBlob (blob : Bytes) : ModuleWriter Nat :=
  onPart (·.blobs) (fun blobs d => { d with blobs }) (BlobHeapBuilder.add blob)

/-- Fails with a fault of the element that `context` names. -/
def check (context : String) (result : Except EmissionFault Unit) : ModuleWriter Unit :=
  match result with
  | .ok () => return ()
  | .error fault => throw (.emission context fault)

/-- Checks that a token names a row. -/
def tokenCheck (m : Module) (place : TokenPlace) (token : Token) : Except EmissionFault Unit :=
  if m.contains token then .ok () else .error (.danglingToken place token)

/-- The form of a token in a column for rows of several tables. -/
def coded (kind : CodedKind) (context : String) (token : Token) : ModuleWriter CodedIndex :=
  match CodedIndex.ofToken kind token with
  | .ok index => return index
  | .error _ => throw (.emission context (.unencodableToken token kind))

/-- Checks the tokens in a body. -/
def bodyTokenCheck (m : Module) (b : MethodBody) : Except EmissionFault Unit := do
  b.code.zipIdx.forM fun (i, index) =>
    match i.operand.token? with
    | some token => tokenCheck m (.operand i.mnemonic index) token
    | none => .ok ()
  b.regions.forM fun r =>
    match r.kind with
    | .catches type => tokenCheck m .catchClause type
    | _ => .ok ()
  if b.localSignature.isNull then .ok ()
  else if !b.localSignature.isIn .standAloneSig then .error (.notLocalSignature b.localSignature)
  else tokenCheck m .localSignature b.localSignature

/-- Writes a body behind the code so far, and answers where its instructions start. -/
def addBody (m : Module) (context : String) (b : MethodBody) : ModuleWriter (List Nat) := do
  check context (b.checkIndices m.documents.length)
  check context (bodyTokenCheck m b)
  let encoded ← Code.encode addLiteral context b.code
  let raw : RawBody :=
    { code := encoded.bytes, maxStack := b.maxStack, initLocals := b.initLocals,
      localSignature := b.localSignature,
      clauses := b.regions.map (Region.toClause encoded.offsets.toArray) }
  let d ← get
  match raw.encode d.il.length with
  | .ok bytes =>
    set { d with il := d.il ++ bytes }
    return encoded.offsets
  | .error defect => throw (.emission context (.clauses defect))

/-- Writes the body of a method, if there is one, and answers its address and offsets. -/
def addMethodBody (m : Module) (context : String) :
    Option MethodBody → ModuleWriter (UInt32 × Option (List Nat))
  | none => return (0, none)
  | some body => do
    modify fun d => { d with il := padTo 4 d.il }
    let address := (← get).il.length
    if 2 ^ 32 ≤ address then throw (.emission context .codeTooLarge)
    return (.ofNat address, some (← addBody m context body))

def moduleRow (m : Module) : ModuleWriter ModuleRow := do
  let name ← addString m.name
  return { generation := m.generation, name, mvid := ← addGuid m.mvid, encId := 0, encBaseId := 0 }

def typeRefRow (m : Module) (r : TypeRef) (position : Nat) : ModuleWriter TypeRefRow := do
  let context := "TypeRef " ++ Text.decimal (position + 1)
  check context (tokenCheck m .scope r.scope)
  let scope ← coded .resolutionScope context r.scope
  let name ← addString r.name
  return { scope, name, namespaceName := ← addString r.namespaceName }

def fieldRow (f : FieldDef) : ModuleWriter FieldRow := do
  let name ← addString f.name
  return { flags := f.flags, name, signature := ← addBlob f.signature }

def paramRow (p : ParamDef) : ModuleWriter ParamRow := do
  return { flags := p.flags, sequence := p.sequence, name := ← addString p.name }

def methodRows (m : Module) (owner : TypeDef) (firstParam : Nat) (d : MethodDef) :
    ModuleWriter MethodRows := do
  let (address, offsets?) ← addMethodBody m (owner.methodText d.name) d.body?
  let name ← addString d.name
  let signature ← addBlob d.signature
  let params ← d.params.mapM paramRow
  let row : MethodDefRow :=
    { address, implFlags := d.implFlags, flags := d.flags, name, signature,
      firstParam }
  return ⟨row, params, offsets?⟩

/-- The methods of a type; `firstParam` is the row of the next parameter. -/
def allMethodRows (m : Module) (owner : TypeDef) :
    (firstParam : Nat) → List MethodDef → ModuleWriter (List MethodRows)
  | _, [] => return []
  | firstParam, d :: ds => do
    let rows ← methodRows m owner firstParam d
    return rows :: (← allMethodRows m owner (firstParam + d.params.length) ds)

/-- The base type of a type as a column; null is the row zero. -/
def baseType (m : Module) (t : TypeDef) : ModuleWriter CodedIndex := do
  if t.baseType.isNull then return ⟨.typeDef, 0⟩
  check t.fullName (tokenCheck m .baseType t.baseType)
  coded .typeDefOrRef t.fullName t.baseType

/-- A type whose members have the given rows first. -/
def typeRows (m : Module) (firstField firstMethod firstParam : Nat) (t : TypeDef) :
    ModuleWriter TypeRows := do
  let baseType ← baseType m t
  let name ← addString t.name
  let namespaceName ← addString t.namespaceName
  let fields ← t.fields.mapM fieldRow
  let methods ← allMethodRows m t firstParam t.methods
  return ⟨{ flags := t.flags, name, namespaceName, baseType, firstField, firstMethod }, fields,
    methods⟩

/-- The types; the numbers are the rows of the next field, method and parameter. -/
def allTypeRows (m : Module) :
    (firstField firstMethod firstParam : Nat) → List TypeDef → ModuleWriter (List TypeRows)
  | _, _, _, [] => return []
  | firstField, firstMethod, firstParam, t :: ts => do
    let rows ← typeRows m firstField firstMethod firstParam t
    let params := (t.methods.map (·.params.length)).sum
    return rows :: (← allTypeRows m (firstField + t.fields.length) (firstMethod + t.methods.length)
      (firstParam + params) ts)

def memberRefRow (m : Module) (r : MemberRef) (position : Nat) : ModuleWriter MemberRefRow := do
  let context := "MemberRef " ++ Text.decimal (position + 1)
  check context (tokenCheck m .parent r.parent)
  let parent ← coded .memberRefParent context r.parent
  let name ← addString r.name
  return { parent, name, signature := ← addBlob r.signature }

def signatureRow (signature : Bytes) : ModuleWriter StandAloneSigRow := do
  return ⟨← addBlob signature⟩

def assemblyRow (a : AssemblyIdentity) : ModuleWriter AssemblyRow := do
  let publicKey ← addBlob a.publicKey
  let name ← addString a.name
  return {
    hashAlgorithm := a.hashAlgorithm, major := a.version.major, minor := a.version.minor,
    build := a.version.build, revision := a.version.revision, flags := a.flags, publicKey, name,
    culture := ← addString a.culture }

def assemblyRefRow (a : AssemblyRef) : ModuleWriter AssemblyRefRow := do
  let key ← addBlob a.key
  let name ← addString a.name
  let culture ← addString a.culture
  return {
    major := a.version.major, minor := a.version.minor, build := a.version.build,
    revision := a.version.revision, flags := a.flags, key, name, culture,
    hash := ← addBlob a.hash }

def entryPointCheck (m : Module) : Except EmissionFault Unit :=
  if m.entryPoint.isNull || (m.entryPoint.isIn .methodDef && m.contains m.entryPoint) then .ok ()
  else .error (.entryPoint m.entryPoint)

end ModuleWriter

/-- The rows of all tables of a module. -/
structure ModuleRows where
  module : ModuleRow
  typeRefs : List TypeRefRow
  types : List TypeRows
  memberRefs : List MemberRefRow
  signatures : List StandAloneSigRow
  assembly : List AssemblyRow
  assemblyRefs : List AssemblyRefRow

namespace ModuleRows

open ModuleWriter in
/-- Writes a module. The entry point is checked before anything else. -/
def ofModule (m : Module) : ModuleWriter ModuleRows := do
  check m.name (entryPointCheck m)
  let module ← moduleRow m
  let typeRefs ← m.typeRefs.zipIdx.mapM fun (r, position) => typeRefRow m r position
  let types ← allTypeRows m 1 1 1 m.types
  let memberRefs ← m.memberRefs.zipIdx.mapM fun (r, position) => memberRefRow m r position
  let signatures ← m.localSignatures.mapM signatureRow
  let assembly ← m.assembly?.toList.mapM assemblyRow
  let assemblyRefs ← m.assemblyRefs.mapM assemblyRefRow
  return { module, typeRefs, types, memberRefs, signatures, assembly, assemblyRefs }

def methods (r : ModuleRows) : List MethodRows := r.types.flatMap (·.methods)

/-- Adds all tables to a stream, in the order of their numbers. -/
def addTo (r : ModuleRows) : EStateM Error TableStreamBuilder Unit := do
  TableStreamBuilder.add [r.module]
  TableStreamBuilder.add r.typeRefs
  TableStreamBuilder.add (r.types.map (·.row))
  TableStreamBuilder.add (r.types.flatMap (·.fields))
  TableStreamBuilder.add (r.methods.map (·.row))
  TableStreamBuilder.add (r.methods.flatMap (·.params))
  TableStreamBuilder.add r.memberRefs
  TableStreamBuilder.add r.signatures
  TableStreamBuilder.add r.assembly
  TableStreamBuilder.add r.assemblyRefs

end ModuleRows

/-- The byte that says which heaps have wide indices. -/
def heapSizes (strings guids blobs : Bool) : UInt8 :=
  (if strings then Layout.largeStrings else 0) ||| (if guids then Layout.largeGuids else 0)
    ||| (if blobs then Layout.largeBlobs else 0)

/-- The stream of the tables that an action adds to a layout. -/
def TableStreamBuilder.stream (layout : Layout) (add : EStateM Error TableStreamBuilder Unit) :
    Result Bytes :=
  match add.run { layout } with
  | .ok () b => .ok b.build
  | .error e _ => .error e

/-- The tables of a module image that have rows, with the numbers of their rows. -/
def Module.rowCounts (m : Module) : List (Table × Nat) :=
  (Table.ofModule.map fun t => (t, m.rows t)).filter fun (_, rows) => 0 < rows

structure ModuleStreams where
  tables : Bytes
  strings : Bytes
  userStrings : Bytes
  guids : Bytes
  blobs : Bytes
  il : Bytes
  /-- For each method with a body, where its instructions start. -/
  offsets : List (Option (List Nat))

namespace ModuleStreams

def ofModule (m : Module) : Result ModuleStreams :=
  match (ModuleRows.ofModule m).run {} with
  | .error e _ => .error e
  | .ok rows d => do
    let sizes := heapSizes d.strings.isLarge d.guids.isLarge d.blobs.isLarge
    let tables ← TableStreamBuilder.stream (.ofCounts m.rowCounts sizes) rows.addTo
    return {
      tables
      strings := d.strings.build
      userStrings := d.userStrings.build
      guids := d.guids.build
      blobs := d.blobs.build
      il := d.il
      offsets := rows.methods.map (·.offsets?) }

/-- The image with the given version text, and with a debug record if there is one. -/
def image (s : ModuleStreams) (version : String) (codeView? : Option CodeViewRecord) :
    Result Bytes :=
  let record := codeView?.toList.map fun record => (StreamName.codeView, record.build)
  Root.build version
    ([(StreamName.tables, s.tables), (StreamName.strings, s.strings),
      (StreamName.userStrings, s.userStrings), (StreamName.guids, s.guids),
      (StreamName.blobs, s.blobs), (StreamName.il, s.il)] ++ record)

end ModuleStreams

end CilWeaver
