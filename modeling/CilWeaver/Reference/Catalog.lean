import CilWeaver.File.Path
import CilWeaver.Module.Builder
import CilWeaver.Signature.Reader
import CilWeaver.Signature.Text

/-!
Catalogs of the types and members that assemblies define. The core library has several names, and case does not matter
when the name of an assembly is looked up.
-/

namespace CilWeaver.AssemblyName

/-- Lower case for the letters of ASCII. -/
def lower (name : String) : String := String.ofList (name.toList.map Char.toLower)

def coreLibrary : String := "System.Private.CoreLib"

/-- The names of the core library. -/
def coreAliases : List String :=
  ["mscorlib", "System.Runtime", "System.Private.CoreLib", "netstandard"]

def isCore (name : String) : Bool := coreAliases.any fun a => lower a == lower name

/-- One name for all names of the core library. -/
def canonical (name : String) : String := if isCore name then coreLibrary else name

/-- Two names have the same key iff they name the same assembly. -/
def key (name : String) : String := lower (canonical name)

end CilWeaver.AssemblyName

namespace CilWeaver

/-- What a type is looked up by. -/
structure TypeKey where
  assembly : String
  fullName : String
deriving DecidableEq

def TypeName.key (t : TypeName) : TypeKey := ⟨AssemblyName.key t.assembly, t.fullName⟩

/-- The type with the canonical name of its assembly. -/
def TypeName.canonical (t : TypeName) : TypeName :=
  { t with assembly := AssemblyName.canonical t.assembly }

/-- Whether two members are looked up by the same key. -/
def MemberName.matches (a b : MemberName) : Bool :=
  a.declaring.key == b.declaring.key && a.name == b.name && a.kind == b.kind
    && a.signature == b.signature

namespace Module

/-- The full name of a type that a signature refers to. -/
def signatureName (m : Module) (type : Token) : Result String :=
  match m.typeName? type with
  | some name => .ok name
  | none => .error (.malformed (.signatureType type))

/-- The kind of member that a signature belongs to, and the normalized text of the signature. -/
def memberSignature (m : Module) (blob : Bytes) : Result (MemberKind × String) :=
  if Signature.isField blob then do
    return (.field, ← (← Signature.parseField blob).render m.signatureName)
  else do
    return (.method, ← (← Signature.parseMethod blob).render m.signatureName)

end Module

structure Catalog where
  types : List (TypeKey × TypeName) := []
  members : List MemberName := []

namespace Catalog

def type? (c : Catalog) (key : TypeKey) : Option TypeName := c.types.lookup key

/-- Adds a type; it takes the place of one with the same key. -/
def addType (c : Catalog) (t : TypeName) : Catalog :=
  let t := t.canonical
  if (c.type? t.key).isSome then
    { c with types := c.types.map fun entry => if entry.1 == t.key then (t.key, t) else entry }
  else { c with types := c.types ++ [(t.key, t)] }

/-- Adds a member, and its type if it is missing. Of members with the same key the first one
    stays. -/
def addMember (c : Catalog) (m : MemberName) : Catalog :=
  let m := { m with declaring := m.declaring.canonical }
  let c := if (c.type? m.declaring.key).isSome then c else c.addType m.declaring
  if c.members.any (·.matches m) then c else { c with members := c.members ++ [m] }

def find? (c : Catalog) : Symbol → Option Symbol
  | .type t => (c.type? t.key).map .type
  | .member m => (c.members.find? (·.matches m)).map .member

def hasAssembly (c : Catalog) (name : String) : Bool :=
  c.types.any fun entry => entry.1.assembly == AssemblyName.key name

def typeCount (c : Catalog) : Nat := c.types.length

def memberCount (c : Catalog) : Nat := c.members.length

/-- The assembly that a module defines: its own identity, or the name of the module without
    extension. -/
def assemblyOf (m : Module) : String :=
  match m.assembly? with
  | some identity => identity.name
  | none => Path.stem m.name

/-- Adds the members with the given names and signatures. -/
def addSigned (m : Module) (declaring : TypeName) (c : Catalog) (members : List (String × Bytes)) :
    Result Catalog :=
  members.foldlM (fun c (name, blob) => do
    let (kind, signature) ← m.memberSignature blob
    return c.addMember ⟨declaring, name, kind, signature⟩) c

def addTypeDef (m : Module) (c : Catalog) (t : TypeDef) : Result Catalog := do
  let declaring : TypeName :=
    ⟨AssemblyName.canonical (assemblyOf m), t.namespaceName, t.name⟩
  let c ← addSigned m declaring (c.addType declaring) (t.methods.map fun d => (d.name, d.signature))
  addSigned m declaring c (t.fields.map fun f => (f.name, f.signature))

/-- What a module defines, apart from global members. -/
def ofModule (m : Module) : Result Catalog :=
  (m.types.filter (·.name != moduleTypeName)).foldlM (addTypeDef m) {}

end Catalog

end CilWeaver
