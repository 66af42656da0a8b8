import CilWeaver.Table.Basic

/-!
Columns that may refer to one of several tables: the low bits of such a column select the table.
-/

namespace CilWeaver

inductive CodedKind where
  | typeDefOrRef
  | memberRefParent
  | resolutionScope
deriving DecidableEq, Repr

namespace CodedKind

/-- The candidate tables, in the order of their tags. -/
def tables : CodedKind → List Table
  | typeDefOrRef => [.typeDef, .typeRef, .typeSpec]
  | memberRefParent => [.typeDef, .typeRef, .moduleRef, .methodDef, .typeSpec]
  | resolutionScope => [.module, .moduleRef, .assemblyRef, .typeRef]

/-- The number of low bits that hold the tag: enough to count the candidates. -/
def tagBits : CodedKind → Nat
  | typeDefOrRef => 2
  | memberRefParent => 3
  | resolutionScope => 2

def name : CodedKind → String
  | typeDefOrRef => "TypeDefOrRef"
  | memberRefParent => "MemberRefParent"
  | resolutionScope => "ResolutionScope"

theorem length_tables_le (k : CodedKind) : k.tables.length ≤ 2 ^ k.tagBits := by
  cases k <;> decide

end CodedKind

/-- A reference to a row of one of several tables. -/
structure CodedIndex where
  table : Table
  row : Nat
deriving DecidableEq, Repr

end CilWeaver
