import CilWeaver.Numbers

/-!
The metadata tables this library knows, and their numbers.
-/

namespace CilWeaver

inductive Table where
  | module
  | typeRef
  | typeDef
  | field
  | methodDef
  | param
  | memberRef
  | standAloneSig
  | moduleRef
  | typeSpec
  | assembly
  | assemblyRef
  | document
  | methodDebugInformation
deriving DecidableEq, Repr, Inhabited

namespace Table

/-- The number of a table, which is also the high byte of its tokens. -/
def number : Table → Nat
  | module => 0x00
  | typeRef => 0x01
  | typeDef => 0x02
  | field => 0x04
  | methodDef => 0x06
  | param => 0x08
  | memberRef => 0x0A
  | standAloneSig => 0x11
  | moduleRef => 0x1A
  | typeSpec => 0x1B
  | assembly => 0x20
  | assemblyRef => 0x23
  | document => 0x30
  | methodDebugInformation => 0x31

/-- All tables in ascending order of their numbers. -/
def all : List Table :=
  [module, typeRef, typeDef, field, methodDef, param, memberRef, standAloneSig, moduleRef, typeSpec,
   assembly, assemblyRef, document, methodDebugInformation]

/-- The tables of a module image, in the order of their rows. -/
def ofModule : List Table :=
  [module, typeRef, typeDef, field, methodDef, param, memberRef, standAloneSig, assembly,
   assemblyRef]

/-- The tables of a symbol image, in the order of their rows. -/
def ofSymbols : List Table := [document, methodDebugInformation]

def ofNumber? (n : Nat) : Option Table := all.find? (·.number == n)

/-- The bit that marks the table in a mask of tables. -/
def mask (t : Table) : UInt64 := 1 <<< UInt64.ofNat t.number

def name : Table → String
  | module => "Module"
  | typeRef => "TypeRef"
  | typeDef => "TypeDef"
  | field => "Field"
  | methodDef => "MethodDef"
  | param => "Param"
  | memberRef => "MemberRef"
  | standAloneSig => "StandAloneSig"
  | moduleRef => "ModuleRef"
  | typeSpec => "TypeSpec"
  | assembly => "Assembly"
  | assemblyRef => "AssemblyRef"
  | document => "Document"
  | methodDebugInformation => "MethodDebugInformation"

theorem mem_all (t : Table) : t ∈ all := by cases t <;> decide

theorem number_lt (t : Table) : t.number < 64 := by cases t <;> decide

theorem ofNumber?_number (t : Table) : ofNumber? t.number = some t := by cases t <;> decide

theorem number_of_ofNumber? {n : Nat} {t : Table} (h : ofNumber? n = some t) : t.number = n := by
  simpa using List.find?_some h

theorem number_inj {s t : Table} : s.number = t.number ↔ s = t :=
  ⟨fun h => by simpa [ofNumber?_number] using congrArg ofNumber? h, fun h => h ▸ rfl⟩

end Table

end CilWeaver
