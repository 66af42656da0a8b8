import CilWeaver.Table.Layout

/-!
The rows of the tables as structures with named columns.
-/

namespace CilWeaver

/-- A structure whose fields are the columns of a table. -/
class TableRow (ρ : Type) where
  table : Table
  toValues : ρ → Values table.columns
  ofValues : Values table.columns → ρ
  ofValues_toValues : ∀ row, ofValues (toValues row) = row
  toValues_ofValues : ∀ values, toValues (ofValues values) = values

structure ModuleRow where
  generation : UInt16
  name : Nat
  mvid : Nat
  encId : Nat
  encBaseId : Nat
deriving DecidableEq

instance : TableRow ModuleRow where
  table := .module
  toValues r := (r.generation, r.name, r.mvid, r.encId, r.encBaseId, ())
  ofValues := fun (generation, name, mvid, encId, encBaseId, ()) =>
    ⟨generation, name, mvid, encId, encBaseId⟩
  ofValues_toValues _ := rfl
  toValues_ofValues _ := rfl

structure TypeRefRow where
  scope : CodedIndex
  name : Nat
  namespaceName : Nat
deriving DecidableEq

instance : TableRow TypeRefRow where
  table := .typeRef
  toValues r := (r.scope, r.name, r.namespaceName, ())
  ofValues := fun (scope, name, namespaceName, ()) => ⟨scope, name, namespaceName⟩
  ofValues_toValues _ := rfl
  toValues_ofValues _ := rfl

structure TypeDefRow where
  flags : UInt32
  name : Nat
  namespaceName : Nat
  baseType : CodedIndex
  firstField : Nat
  firstMethod : Nat
deriving DecidableEq

instance : TableRow TypeDefRow where
  table := .typeDef
  toValues r := (r.flags, r.name, r.namespaceName, r.baseType, r.firstField, r.firstMethod, ())
  ofValues := fun (flags, name, namespaceName, baseType, firstField, firstMethod, ()) =>
    ⟨flags, name, namespaceName, baseType, firstField, firstMethod⟩
  ofValues_toValues _ := rfl
  toValues_ofValues _ := rfl

structure FieldRow where
  flags : UInt16
  name : Nat
  signature : Nat
deriving DecidableEq

instance : TableRow FieldRow where
  table := .field
  toValues r := (r.flags, r.name, r.signature, ())
  ofValues := fun (flags, name, signature, ()) => ⟨flags, name, signature⟩
  ofValues_toValues _ := rfl
  toValues_ofValues _ := rfl

/-- `address` is the position of the body in the code stream, zero for a method without one. -/
structure MethodDefRow where
  address : UInt32
  implFlags : UInt16
  flags : UInt16
  name : Nat
  signature : Nat
  firstParam : Nat
deriving DecidableEq

instance : TableRow MethodDefRow where
  table := .methodDef
  toValues r := (r.address, r.implFlags, r.flags, r.name, r.signature, r.firstParam, ())
  ofValues := fun (address, implFlags, flags, name, signature, firstParam, ()) =>
    ⟨address, implFlags, flags, name, signature, firstParam⟩
  ofValues_toValues _ := rfl
  toValues_ofValues _ := rfl

structure ParamRow where
  flags : UInt16
  sequence : UInt16
  name : Nat
deriving DecidableEq

instance : TableRow ParamRow where
  table := .param
  toValues r := (r.flags, r.sequence, r.name, ())
  ofValues := fun (flags, sequence, name, ()) => ⟨flags, sequence, name⟩
  ofValues_toValues _ := rfl
  toValues_ofValues _ := rfl

structure MemberRefRow where
  parent : CodedIndex
  name : Nat
  signature : Nat
deriving DecidableEq

instance : TableRow MemberRefRow where
  table := .memberRef
  toValues r := (r.parent, r.name, r.signature, ())
  ofValues := fun (parent, name, signature, ()) => ⟨parent, name, signature⟩
  ofValues_toValues _ := rfl
  toValues_ofValues _ := rfl

structure StandAloneSigRow where
  signature : Nat
deriving DecidableEq

instance : TableRow StandAloneSigRow where
  table := .standAloneSig
  toValues r := (r.signature, ())
  ofValues := fun (signature, ()) => ⟨signature⟩
  ofValues_toValues _ := rfl
  toValues_ofValues _ := rfl

structure AssemblyRow where
  hashAlgorithm : UInt32
  major : UInt16
  minor : UInt16
  build : UInt16
  revision : UInt16
  flags : UInt32
  publicKey : Nat
  name : Nat
  culture : Nat
deriving DecidableEq

instance : TableRow AssemblyRow where
  table := .assembly
  toValues r :=
    (r.hashAlgorithm, r.major, r.minor, r.build, r.revision, r.flags, r.publicKey, r.name,
      r.culture, ())
  ofValues := fun (hashAlgorithm, major, minor, build, revision, flags, publicKey, name, culture,
      ()) =>
    ⟨hashAlgorithm, major, minor, build, revision, flags, publicKey, name, culture⟩
  ofValues_toValues _ := rfl
  toValues_ofValues _ := rfl

structure AssemblyRefRow where
  major : UInt16
  minor : UInt16
  build : UInt16
  revision : UInt16
  flags : UInt32
  key : Nat
  name : Nat
  culture : Nat
  hash : Nat
deriving DecidableEq

instance : TableRow AssemblyRefRow where
  table := .assemblyRef
  toValues r :=
    (r.major, r.minor, r.build, r.revision, r.flags, r.key, r.name, r.culture, r.hash, ())
  ofValues := fun (major, minor, build, revision, flags, key, name, culture, hash, ()) =>
    ⟨major, minor, build, revision, flags, key, name, culture, hash⟩
  ofValues_toValues _ := rfl
  toValues_ofValues _ := rfl

structure DocumentRow where
  name : Nat
  hashAlgorithm : Nat
  hash : Nat
  language : Nat
deriving DecidableEq

instance : TableRow DocumentRow where
  table := .document
  toValues r := (r.name, r.hashAlgorithm, r.hash, r.language, ())
  ofValues := fun (name, hashAlgorithm, hash, language, ()) =>
    ⟨name, hashAlgorithm, hash, language⟩
  ofValues_toValues _ := rfl
  toValues_ofValues _ := rfl

/-- The sequence points of the method with the same row number; `document` is zero when they lie in
    several documents. -/
structure MethodDebugRow where
  document : Nat
  points : Nat
deriving DecidableEq

instance : TableRow MethodDebugRow where
  table := .methodDebugInformation
  toValues r := (r.document, r.points, ())
  ofValues := fun (document, points, ()) => ⟨document, points⟩
  ofValues_toValues _ := rfl
  toValues_ofValues _ := rfl

end CilWeaver
