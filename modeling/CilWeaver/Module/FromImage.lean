import CilWeaver.Image.SymbolImage
import CilWeaver.Module.Clause
import CilWeaver.Signature.Reader

/-!
The module that a module image and its symbol image describe. References are not resolved here.
-/

namespace CilWeaver

namespace ModuleImage

/-- Puts the name of the method in front of a defect. -/
def inMethod {α : Type} (method : String) : Result α → Result α
  | .error (.malformed defect) => .error (.malformed (.inMethod method defect))
  | r => r

/-- Checks that the token operands of a body name rows. -/
def checkOperands (image : ModuleImage) (method : String) (decoded : DecodedBody) : Result Unit :=
  (decoded.code.zip decoded.offsets).forM fun (i, offset) =>
    match i.operand.token? with
    | none => .ok ()
    | some token =>
      if image.contains token then .ok ()
      else .error (.malformed (.operandDangling i.mnemonic method offset token))

/-- The types of the locals, whose signature is in the given row; a null token stands for none. -/
def locals (image : ModuleImage) (method : String) (token : Token) : Result (List TypeSig) :=
  if token.isNull then .ok []
  else match (if token.isIn .standAloneSig then Module.rowOf? image.signatures token.row
      else none) with
    | none => .error (.malformed (.localsDangling method token))
    | some row => do Signature.parseLocals (← image.blob row.signature)

/-- The body at an address of the code stream, and where its instructions start. -/
def body (image : ModuleImage) (maxBodySize : Nat) (method : String) (address : UInt32) :
    Result (MethodBody × DecodedBody) := do
  let start := address.toNat
  if start < reservedCode ∨ image.il.length ≤ start then
    .error (.malformed (.bodyOutside method start))
  let raw ← StoredBody.parse (image.il.drop start)
  if maxBodySize < raw.code.length then
    .error (.malformed (.bodyTooLong method raw.code.length maxBodySize))
  let decoded ← inMethod method (Code.decode image.literal raw.code)
  image.checkOperands method decoded
  let locals ← image.locals method raw.localSignature
  let regions ← raw.clauses.mapM (Region.ofClause image.contains decoded method)
  let body : MethodBody :=
    { code := decoded.code, maxStack := raw.maxStack, initLocals := raw.initLocals,
      localSignature := raw.localSignature, locals, regions }
  return (body, decoded)

def assemblyIdentity (image : ModuleImage) (row : AssemblyRow) : Result AssemblyIdentity := do
  return {
    name := ← image.string row.name
    version := ⟨row.major, row.minor, row.build, row.revision⟩
    flags := row.flags
    hashAlgorithm := row.hashAlgorithm
    publicKey := ← image.blob row.publicKey
    culture := ← image.string row.culture }

def assemblyRef (image : ModuleImage) (row : AssemblyRefRow) : Result AssemblyRef := do
  return {
    name := ← image.string row.name
    version := ⟨row.major, row.minor, row.build, row.revision⟩
    flags := row.flags
    key := ← image.blob row.key
    culture := ← image.string row.culture
    hash := ← image.blob row.hash }

def typeRef (image : ModuleImage) (row : TypeRefRow) : Result TypeRef := do
  let namespaceName ← image.string row.namespaceName
  return { scope := row.scope.token, namespaceName, name := ← image.string row.name }

def memberRef (image : ModuleImage) (row : MemberRefRow) : Result MemberRef := do
  let name ← image.string row.name
  return { parent := row.parent.token, name, signature := ← image.blob row.signature }

def fieldDef (image : ModuleImage) (row : FieldRow) : Result FieldDef := do
  return { flags := row.flags, name := ← image.string row.name,
           signature := ← image.blob row.signature }

def paramDef (image : ModuleImage) (row : ParamRow) : Result ParamDef := do
  return { flags := row.flags, sequence := row.sequence, name := ← image.string row.name }

/-- The body of a method with its source points; an address of zero stands for no body. -/
def bodyWithSymbols (image : ModuleImage) (symbols? : Option SymbolImage) (maxBodySize : Nat)
    (position : Nat) (method : String) (address : UInt32) : Result (Option MethodBody) := do
  let found? ←
    if address == 0 then pure none else some <$> image.body maxBodySize method address
  let bodySymbols? ←
    match symbols? with
    | none => pure none
    | some symbols => symbols.bodySymbols position (found?.map (·.2)) method
  return found?.map fun found => { found.1 with symbols? := bodySymbols? }

/-- The method with the given position among all methods; `owner` is its type without members. -/
def methodDef (image : ModuleImage) (symbols? : Option SymbolImage) (maxBodySize : Nat)
    (owner : TypeDef) (position : Nat) (row : MethodDefRow) (params : Run) : Result MethodDef := do
  let name ← image.string row.name
  let params ← (params.slice image.params).mapM image.paramDef
  let body? ←
    image.bodyWithSymbols symbols? maxBodySize position (owner.methodText name) row.address
  return { flags := row.flags, implFlags := row.implFlags, name,
           signature := ← image.blob row.signature, params, body? }

def typeDef (image : ModuleImage) (symbols? : Option SymbolImage) (maxBodySize : Nat)
    (paramRuns : List Run) (row : TypeDefRow) (fields methods : Run) : Result TypeDef := do
  let namespaceName ← image.string row.namespaceName
  let name ← image.string row.name
  let baseType := if row.baseType.isNull then .null else row.baseType.token
  let fields ← (fields.slice image.fields).mapM image.fieldDef
  let owner : TypeDef :=
    { flags := row.flags, namespaceName, name, baseType, fields, methods := [] }
  let rows := (methods.slice image.methods).zip (methods.slice paramRuns)
  let methods ← (rows.zipIdx methods.start).mapM fun ((method, params), position) =>
    image.methodDef symbols? maxBodySize owner position method params
  return { owner with methods }

/-- The module without its symbols. The bodies have the source points of `symbols?`. -/
def module (image : ModuleImage) (symbols? : Option SymbolImage) (maxBodySize : Nat) :
    Result Module := do
  let name ← image.string image.moduleRow.name
  let mvid ← image.guids.get image.moduleRow.mvid
  let assembly? ← image.assembly?.mapM image.assemblyIdentity
  let assemblyRefs ← image.assemblyRefs.mapM image.assemblyRef
  let typeRefs ← image.typeRefs.mapM image.typeRef
  let memberRefs ← image.memberRefs.mapM image.memberRef
  let localSignatures ← image.signatures.mapM fun row => image.blob row.signature
  let fieldRuns ← image.fieldRuns
  let methodRuns ← image.methodRuns
  let paramRuns ← image.paramRuns
  let types ← (image.typeDefs.zip (fieldRuns.zip methodRuns)).mapM fun (row, fields, methods) =>
    image.typeDef symbols? maxBodySize paramRuns row fields methods
  return { name, runtimeVersion := image.version, mvid, generation := image.moduleRow.generation,
           assembly?, assemblyRefs, typeRefs, memberRefs, localSignatures, types }

/-- Checks that an entry point is null or names a method. -/
def checkEntryPoint (image : ModuleImage) (name : String) (token : Token) : Result Unit :=
  if token.isNull || (token.isIn .methodDef && token.row ≤ image.methods.length) then .ok ()
  else .error (.malformed (.entryPoint token name))

end ModuleImage

namespace Module

/-- The largest code of a body that is read unless a caller says otherwise. -/
def defaultMaxBodySize : Nat := 0x01000000

/-- The symbols of a module image, which must have a record that names them. -/
def symbolsOf (name : String) (image : ModuleImage) (data : Bytes) :
    Result (SymbolImage × SymbolFile) :=
  match image.codeView? with
  | none => .error (.malformed (.noDebugRecord name))
  | some record => do
    return (← SymbolImage.parse record.id image.methods.length data, ⟨record.path, record.age⟩)

/-- The module described by a module image and, if given, its symbol image. The `name` is the one
    that messages carry. -/
def ofImages (name : String) (maxBodySize : Nat) (code : Bytes) (symbols? : Option Bytes) :
    Result Module := do
  let image ← ModuleImage.parse code
  match symbols? with
  | none => image.module none maxBodySize
  | some data => do
    let (symbols, file) ← symbolsOf name image data
    let m ← image.module (some symbols) maxBodySize
    image.checkEntryPoint name symbols.entryPoint
    return { m with
      documents := symbols.documents
      entryPoint := symbols.entryPoint
      symbols? := some file }

/-- Turns running out of data into a defect of the data. -/
def asMalformed : Error → Error
  | .outOfBounds => .malformed .truncated
  | e => e

/-- The module of an image without symbols, with unresolved references. -/
def readDefinitions (name : String) (code : Bytes) : Result Module :=
  (ofImages name defaultMaxBodySize code none).mapError asMalformed

end Module

end CilWeaver
