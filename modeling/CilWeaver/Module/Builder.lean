import CilWeaver.Module.Basic
import CilWeaver.Signature.Writer

/-!
Building modules step by step. Each step is an action on the module so far and answers the token of
what it added; a step that fails leaves the module as it was. Fields and methods belong to the type
that was added last, so that a token keeps its meaning.
-/

namespace CilWeaver

namespace Document

/-- The hash algorithm SHA-1, `ff1816ec-aa5e-4d10-87f7-6f4963833460`. -/
def sha1 : Guid :=
  ⟨[0xEC, 0x16, 0x18, 0xFF, 0x5E, 0xAA, 0x10, 0x4D, 0x87, 0xF7, 0x6F, 0x49, 0x63, 0x83, 0x34, 0x60],
    rfl⟩

/-- The language C#, `3f5162f8-07c6-11d3-9053-00c04fa302a1`. -/
def csharp : Guid :=
  ⟨[0xF8, 0x62, 0x51, 0x3F, 0xC6, 0x07, 0xD3, 0x11, 0x90, 0x53, 0x00, 0xC0, 0x4F, 0xA3, 0x02, 0xA1],
    rfl⟩

end Document

/-- The name of the type that holds what belongs to no other type. -/
def moduleTypeName : String := "<Module>"

/-- A step that adds to a module. -/
abbrev ModuleBuilder := EStateM Error Module

namespace ModuleBuilder

/-- The module to start from, with the type for global members only. -/
def start (name : String) : Module :=
  { name
    types := [{ flags := 0, namespaceName := "", name := moduleTypeName, baseType := .null,
                fields := [], methods := [] }] }

/-- The result of an encoding; a failure changes nothing. -/
def encoded (data : Result Bytes) : ModuleBuilder Bytes :=
  match data with
  | .ok bytes => return bytes
  | .error e => throw e

/-- The token of the last row of a table. -/
def lastRow (table : Table) : ModuleBuilder Token := do
  return .ofRow table ((← get).rows table)

def setMvid (mvid : Guid) : ModuleBuilder Unit := modify ({ · with mvid })

def setAssembly (name : String) (version : Version) : ModuleBuilder Unit :=
  let identity : AssemblyIdentity :=
    { name, version, flags := 0, hashAlgorithm := 0x8004, publicKey := [], culture := "" }
  modify ({ · with assembly? := some identity })

def setSymbols (path : String) : ModuleBuilder Unit :=
  modify ({ · with symbols? := some ⟨path, 1⟩ })

def setEntryPoint (method : Token) : ModuleBuilder Unit := modify ({ · with entryPoint := method })

def addAssemblyRef (name : String) (version : Version) : ModuleBuilder Token := do
  let r : AssemblyRef := { name, version, flags := 0, key := [], culture := "", hash := [] }
  modify fun m => { m with assemblyRefs := m.assemblyRefs ++ [r] }
  lastRow .assemblyRef

def addTypeRef (scope : Token) (namespaceName name : String) : ModuleBuilder Token := do
  modify fun m => { m with typeRefs := m.typeRefs ++ [{ scope, namespaceName, name }] }
  lastRow .typeRef

def addMemberRef (parent : Token) (name : String) (signature : Bytes) : ModuleBuilder Token := do
  modify fun m => { m with memberRefs := m.memberRefs ++ [{ parent, name, signature }] }
  lastRow .memberRef

def addMethodRef (parent : Token) (name : String) (signature : MethodSig) :
    ModuleBuilder Token := do
  addMemberRef parent name (← encoded (Signature.encodeMethod signature))

def addFieldRef (parent : Token) (name : String) (type : TypeSig) : ModuleBuilder Token := do
  addMemberRef parent name (← encoded (Signature.encodeField type))

def addLocals (types : List TypeSig) : ModuleBuilder Token := do
  let signature ← encoded (Signature.encodeLocals types)
  modify fun m => { m with localSignatures := m.localSignatures ++ [signature] }
  lastRow .standAloneSig

/-- Public, initialized before its first use. -/
def typeFlags : UInt32 := 0x00100001

def addType (namespaceName name : String) (baseType : Token) : ModuleBuilder Token := do
  let t : TypeDef :=
    { flags := typeFlags, namespaceName, name, baseType, fields := [], methods := [] }
  modify fun m => { m with types := m.types ++ [t] }
  lastRow .typeDef

/-- Changes the last item of a list. -/
def modifyLast {α : Type} (f : α → α) : List α → List α
  | [] => []
  | [a] => [f a]
  | a :: b :: rest => a :: modifyLast f (b :: rest)

def addField (name : String) (flags : UInt16) (type : TypeSig) : ModuleBuilder Token := do
  let field : FieldDef := { flags, name, signature := ← encoded (Signature.encodeField type) }
  let row := (← get).rows .field + 1
  modify fun m =>
    { m with types := modifyLast (fun t => { t with fields := t.fields ++ [field] }) m.types }
  return .ofRow .field row

/-- Parameters are named after their position. -/
def paramDefs (count : Nat) : List ParamDef :=
  (List.range count).map fun i =>
    { flags := 0, sequence := .ofNat (i + 1), name := "arg" ++ Text.decimal i }

def addMethod (name : String) (flags : UInt16) (signature : MethodSig) (body? : Option MethodBody) :
    ModuleBuilder Token := do
  let method : MethodDef :=
    { flags, implFlags := 0, name, signature := ← encoded (Signature.encodeMethod signature),
      params := paramDefs signature.parameters.length, body? }
  let row := (← get).rows .methodDef + 1
  modify fun m =>
    { m with types := modifyLast (fun t => { t with methods := t.methods ++ [method] }) m.types }
  return .ofRow .methodDef row

/-- Adds a document and answers its row. -/
def addDocument (name : String) : ModuleBuilder Nat := do
  let d : Document :=
    { name, hashAlgorithm := Document.sha1, hash := [], language := Document.csharp }
  modify fun m => { m with documents := m.documents ++ [d] }
  return (← get).documents.length

end ModuleBuilder

/-- A method body under construction. -/
structure BodyDraft where
  code : List Instruction := []
  maxStack : UInt16 := 8
  initLocals : Bool := false
  localSignature : Token := .null
  locals : List TypeSig := []
  regions : List Region := []
  points : List SourcePoint := []

namespace BodyDraft

def add (d : BodyDraft) (code : List Instruction) : BodyDraft := { d with code := d.code ++ code }

def addRegion (d : BodyDraft) (r : Region) : BodyDraft := { d with regions := d.regions ++ [r] }

/-- The instructions that are added next belong to a part of one line. -/
def addLine (d : BodyDraft) (document line : UInt32) (startColumn endColumn : UInt16) : BodyDraft :=
  let p : SourcePoint := ⟨d.code.length, document, line, startColumn, line, endColumn⟩
  { d with points := d.points ++ [p] }

/-- The instructions that are added next belong to no line. -/
def addHidden (d : BodyDraft) (document : UInt32) : BodyDraft :=
  { d with points := d.points ++ [.hidden d.code.length document] }

def build (d : BodyDraft) : MethodBody :=
  let row : UInt32 := if d.localSignature.isNull then 0 else .ofNat d.localSignature.row
  { code := d.code
    maxStack := d.maxStack
    initLocals := d.initLocals
    localSignature := d.localSignature
    locals := d.locals
    regions := d.regions
    symbols? := if d.points.isEmpty then none else some ⟨row, d.points⟩ }

end BodyDraft

end CilWeaver
