import CilWeaver.Debug.CodeView
import CilWeaver.Table.Stream

/-!
The stream of a symbol image that describes its module: the common identifier, the entry point and
the numbers of rows of the module's tables.
-/

namespace CilWeaver

structure PdbStream where
  id : ImageId
  entryPoint : Token
  rows : List (Table × UInt32)
deriving DecidableEq

namespace PdbStream

/-- The row count of the table with the given number. -/
def readRows (number : Nat) : Reader (Table × UInt32) := do
  match (Table.ofNumber? number).filter Table.ofModule.contains with
  | none => Reader.malformed (.pdbTable number)
  | some table => return (table, ← Reader.u32)

def read : Reader PdbStream := do
  let id ← ImageId.read .pdbTruncated
  let entryPoint : Token := ⟨← Reader.u32⟩
  let mask ← Reader.u64
  let rows ← (TableStream.setBits mask).mapM readRows
  return ⟨id, entryPoint, rows⟩

def parse (data : Bytes) : Result PdbStream := read.parse data

/-- The row count of a table, if the stream has one. -/
def rows? (s : PdbStream) (table : Table) : Option UInt32 := s.rows.lookup table

def mask (s : PdbStream) : UInt64 := s.rows.foldl (fun mask (table, _) => mask ||| table.mask) 0

def build (s : PdbStream) : Bytes :=
  s.id.bytes ++ u32Bytes s.entryPoint.value ++ u64Bytes s.mask
    ++ s.rows.flatMap fun (_, count) => u32Bytes count

end PdbStream

end CilWeaver
