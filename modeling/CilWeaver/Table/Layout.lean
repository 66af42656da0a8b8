import CilWeaver.Bytes.Column
import CilWeaver.Table.CodedIndex

/-!
The columns of each table, and the layout that decides how wide they are: the numbers of rows of all
tables and the sizes of the heaps.
-/

namespace CilWeaver

/-- What a column holds: a number of its own, or an index into a heap or table. -/
inductive Column where
  | word
  | double
  | string
  | guid
  | blob
  | row (table : Table)
  | coded (kind : CodedKind)
deriving DecidableEq, Repr

/-- The values a column can hold. -/
def Column.Value : Column → Type
  | word => UInt16
  | double => UInt32
  | string | guid | blob | row _ => Nat
  | coded _ => CodedIndex

/-- One value for each column. -/
def Values : List Column → Type
  | [] => Unit
  | c :: cs => c.Value × Values cs

/-- The columns of a table in the order of the image; this library stores no rows of the two tables
    without columns. -/
def Table.columns : Table → List Column
  | module => [.word, .string, .guid, .guid, .guid]
  | typeRef => [.coded .resolutionScope, .string, .string]
  | typeDef =>
    [.double, .string, .string, .coded .typeDefOrRef, .row .field, .row .methodDef]
  | field => [.word, .string, .blob]
  | methodDef => [.double, .word, .word, .string, .blob, .row .param]
  | param => [.word, .word, .string]
  | memberRef => [.coded .memberRefParent, .string, .blob]
  | standAloneSig => [.blob]
  | moduleRef => []
  | typeSpec => []
  | assembly =>
    [.double, .word, .word, .word, .word, .double, .blob, .string, .string]
  | assemblyRef =>
    [.word, .word, .word, .word, .double, .blob, .string, .string, .blob]
  | document => [.blob, .guid, .blob, .guid]
  | methodDebugInformation => [.row .document, .blob]

structure Layout where
  rows : Table → Nat
  /-- One bit for each heap whose indices take four bytes. -/
  heapSizes : UInt8

namespace Layout

/-- Tables that are not listed have no rows; of two entries for a table the last one counts. -/
def ofCounts (counts : List (Table × Nat)) (heapSizes : UInt8) : Layout :=
  { rows := fun t => (counts.reverse.lookup t).getD 0
    heapSizes }

def largeStrings : UInt8 := 0x01
def largeGuids : UInt8 := 0x02
def largeBlobs : UInt8 := 0x04

def wideStrings (l : Layout) : Bool := l.heapSizes &&& largeStrings != 0

def wideGuids (l : Layout) : Bool := l.heapSizes &&& largeGuids != 0

def wideBlobs (l : Layout) : Bool := l.heapSizes &&& largeBlobs != 0

/-- Whether the row numbers of the table exceed two bytes. -/
def wideRows (l : Layout) (t : Table) : Bool := 0xFFFF < l.rows t

/-- Whether a row number of some candidate table, moved up by the tag, exceeds two bytes. -/
def wideCoded (l : Layout) (kind : CodedKind) : Bool :=
  kind.tables.any fun t => 2 ^ (16 - kind.tagBits) ≤ l.rows t

def width (l : Layout) : Column → Nat
  | .word => 2
  | .double => 4
  | .string => columnWidth l.wideStrings
  | .guid => columnWidth l.wideGuids
  | .blob => columnWidth l.wideBlobs
  | .row t => columnWidth (l.wideRows t)
  | .coded kind => columnWidth (l.wideCoded kind)

/-- The size of a row in bytes, missing for a table without columns. -/
def rowSize? (l : Layout) (t : Table) : Option Nat :=
  if t.columns.isEmpty then none else some (t.columns.map l.width).sum

def readColumn (l : Layout) : (c : Column) → Reader c.Value
  | .word => Reader.u16
  | .double => Reader.u32
  | .string => Reader.column l.wideStrings
  | .guid => Reader.column l.wideGuids
  | .blob => Reader.column l.wideBlobs
  | .row t => Reader.column (l.wideRows t)
  | .coded kind => do
    match CodedIndex.decode kind (← Reader.column (l.wideCoded kind)) with
    | .ok index => return index
    | .error e => throw e

def writeColumn (l : Layout) : (c : Column) → c.Value → Result Bytes
  | .word, n => .ok (u16Bytes n)
  | .double, n => .ok (u32Bytes n)
  | .string, n => column l.wideStrings n
  | .guid, n => column l.wideGuids n
  | .blob, n => column l.wideBlobs n
  | .row t, n => column (l.wideRows t) n
  | .coded kind, index => do column (l.wideCoded kind) (← index.encode kind)

def readValues (l : Layout) : (cs : List Column) → Reader (Values cs)
  | [] => return ()
  | c :: cs => do
    let v ← l.readColumn c
    let vs ← l.readValues cs
    return (v, vs)

/-- The columns one by one, each as its bytes or as the reason why it cannot be written. -/
def writeValues (l : Layout) : (cs : List Column) → Values cs → List (Result Bytes)
  | [], _ => []
  | c :: cs, (v, vs) => l.writeColumn c v :: l.writeValues cs vs

end Layout

/-- All pieces in order, or the first failure. -/
def joinPieces (pieces : List (Result Bytes)) : Result Bytes :=
  (pieces.mapM id).map List.flatten

/-- The pieces in front of the first failure. -/
def piecesBeforeFailure : List (Result Bytes) → Bytes
  | .ok bytes :: pieces => bytes ++ piecesBeforeFailure pieces
  | _ => []

end CilWeaver
