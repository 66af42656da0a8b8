import CilWeaver.Guid
import CilWeaver.Method.Flags
import CilWeaver.Module.Body
import CilWeaver.Reference.Symbol

/-!
Modules: the types, references and documents of a module, without heaps and offsets. Rows are
implied by the order of the lists; fields, methods and parameters are numbered across all types.
-/

namespace CilWeaver

structure Version where
  major : UInt16
  minor : UInt16
  build : UInt16
  revision : UInt16
deriving DecidableEq, Inhabited

def Version.text (v : Version) : String :=
  let part (n : UInt16) : String := Text.decimal n.toNat
  ".".intercalate [part v.major, part v.minor, part v.build, part v.revision]

structure AssemblyIdentity where
  name : String
  version : Version
  flags : UInt32
  hashAlgorithm : UInt32
  publicKey : Bytes
  culture : String
deriving DecidableEq

structure AssemblyRef where
  name : String
  version : Version
  flags : UInt32
  key : Bytes
  culture : String
  hash : Bytes
deriving DecidableEq

/-- A reference to a type. The `definition?` is the symbol that a resolver found for it. -/
structure TypeRef where
  scope : Token
  namespaceName : String
  name : String
  definition? : Option Symbol := none
deriving DecidableEq

structure MemberRef where
  parent : Token
  name : String
  signature : Bytes
  definition? : Option Symbol := none
deriving DecidableEq

structure FieldDef where
  flags : UInt16
  name : String
  signature : Bytes
deriving DecidableEq

structure ParamDef where
  flags : UInt16
  sequence : UInt16
  name : String
deriving DecidableEq

structure MethodDef where
  flags : UInt16
  implFlags : UInt16
  name : String
  signature : Bytes
  params : List ParamDef
  body? : Option MethodBody
deriving DecidableEq

def MethodDef.isStatic (m : MethodDef) : Bool := MethodFlags.isStatic m.flags

structure TypeDef where
  flags : UInt32
  namespaceName : String
  name : String
  baseType : Token
  fields : List FieldDef
  methods : List MethodDef
deriving DecidableEq

def TypeDef.fullName (t : TypeDef) : String := qualifiedName t.namespaceName t.name

/-- The name of a method that messages carry. -/
def TypeDef.methodText (t : TypeDef) (method : String) : String := t.fullName ++ "::" ++ method

structure Document where
  name : String
  hashAlgorithm : Guid
  hash : Bytes
  language : Guid
deriving DecidableEq

/-- The symbol file that belongs to a module. -/
structure SymbolFile where
  path : String
  age : UInt32
deriving DecidableEq

structure Module where
  name : String
  runtimeVersion : String := "v4.0.30319"
  mvid : Guid := .nil
  generation : UInt16 := 0
  assembly? : Option AssemblyIdentity := none
  assemblyRefs : List AssemblyRef := []
  typeRefs : List TypeRef := []
  memberRefs : List MemberRef := []
  localSignatures : List Bytes := []
  types : List TypeDef := []
  documents : List Document := []
  entryPoint : Token := .null
  symbols? : Option SymbolFile := none
deriving DecidableEq

namespace Module

/-- All methods in the order of their rows, each with its type. -/
def methodList (m : Module) : List (TypeDef × MethodDef) :=
  m.types.flatMap fun t => t.methods.map (t, ·)

/-- The number of rows that the module fills of a table. -/
def rows (m : Module) : Table → Nat
  | .module => 1
  | .typeRef => m.typeRefs.length
  | .typeDef => m.types.length
  | .field => (m.types.map (·.fields.length)).sum
  | .methodDef => (m.types.map (·.methods.length)).sum
  | .param => (m.methodList.map (·.2.params.length)).sum
  | .memberRef => m.memberRefs.length
  | .standAloneSig => m.localSignatures.length
  | .assembly => if m.assembly?.isSome then 1 else 0
  | .assemblyRef => m.assemblyRefs.length
  | .document => m.documents.length
  | .methodDebugInformation =>
    if m.symbols?.isSome then (m.types.map (·.methods.length)).sum else 0
  | .moduleRef | .typeSpec => 0

/-- Whether the token names a row of the module. -/
def contains (m : Module) (token : Token) : Bool :=
  match token.table? with
  | some table => 1 ≤ token.row && token.row ≤ m.rows table
  | none => false

/-- The item of a list that has the given row number. -/
def rowOf? {α : Type} (items : List α) : (row : Nat) → Option α
  | 0 => none
  | row + 1 => items[row]?

/-- All methods with their tokens and types. -/
def methods (m : Module) : List (Token × TypeDef × MethodDef) :=
  m.methodList.zipIdx.map fun (method, index) => (.ofRow .methodDef (index + 1), method)

def method? (m : Module) (token : Token) : Option MethodDef :=
  if token.isIn .methodDef then (rowOf? m.methodList token.row).map (·.2) else none

/-- Changes the methods of the types from the method with row `row` on: `f` gets each with its
    row. -/
def mapMethodsFrom (f : Nat → MethodDef → MethodDef) : (row : Nat) → List TypeDef → List TypeDef
  | _, [] => []
  | row, t :: ts =>
    { t with methods := (t.methods.zipIdx row).map fun (d, row) => f row d }
      :: mapMethodsFrom f (row + t.methods.length) ts

/-- Changes the method with the given token, if there is one. -/
def modifyMethod (m : Module) (token : Token) (f : MethodDef → MethodDef) : Module :=
  if token.isIn .methodDef then
    { m with types := mapMethodsFrom (fun row d => if row = token.row then f d else d) 1 m.types }
  else m

/-- The first method with the given name in a type with the given full name. -/
def findMethod? (m : Module) (typeName methodName : String) : Option (Token × MethodDef) :=
  (m.methods.find? fun (_, t, d) => t.fullName == typeName && d.name == methodName).map
    fun (token, _, d) => (token, d)

/-- How many types a reference may be nested in. -/
def maxNesting : Nat := 64

/-- The full name of a type when at most `fuel` references are followed. -/
def typeNameWithin (m : Module) : (fuel : Nat) → Token → Option String
  | 0, _ => none
  | fuel + 1, token =>
    match token.table? with
    | some .typeDef => (rowOf? m.types token.row).map TypeDef.fullName
    | some .typeRef => do
      let r ← rowOf? m.typeRefs token.row
      if r.scope.isIn .typeRef then
        return (← m.typeNameWithin fuel r.scope) ++ "/" ++ r.name
      else return qualifiedName r.namespaceName r.name
    | _ => none

/-- The full name of the type that a token names; the names of types around it come first. -/
def typeName? (m : Module) (token : Token) : Option String :=
  m.typeNameWithin (maxNesting + 1) token

end Module

end CilWeaver
