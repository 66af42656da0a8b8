import CilWeaver.Table.Row

/-!
The stream of all tables: a header with the row counts, then the rows of each table, back to back in
the order of the table numbers.
-/

namespace CilWeaver

/-- The rows that a token can address. -/
def maxRows : Nat := 0xFFFFFF

/-- Where the rows of a table lie in the stream. -/
structure TablePlace where
  table : Table
  offset : Nat
  rows : Nat

structure TableStream where
  data : Bytes
  layout : Layout
  valid : UInt64
  sorted : UInt64
  places : List TablePlace

namespace TableStream

/-- The row count of the table with the given number, which must be one of the allowed tables. -/
def readCount (allowed : List Table) (number : Nat) : Reader (Table × Nat) := do
  match (Table.ofNumber? number).filter allowed.contains with
  | none => Reader.malformed (.unsupportedTable number)
  | some table =>
    let rows := (← Reader.u32).toNat
    if maxRows < rows then Reader.malformed (.tooManyRows table rows)
    return (table, rows)

def setBits (mask : UInt64) : List Nat := (List.range 64).filter mask.toNat.testBit

/-- Lays the tables one behind the other from `offset` on; none may reach beyond `size`. -/
def place (layout : Layout) (size : Nat) : (offset : Nat) → List (Table × Nat) →
    Result (List TablePlace)
  | _, [] => .ok []
  | offset, (table, rows) :: counts => do
    let some rowSize := layout.rowSize? table
      | .error (.malformed (.tableWithoutRows table))
    let stop := offset + rowSize * rows
    if size < stop then .error (.malformed (.tableOutside table))
    else return ⟨table, offset, rows⟩ :: (← place layout size stop counts)

def readHeader (allowed : List Table) : Reader (Layout × UInt64 × UInt64 × List (Table × Nat)) := do
  let _ ← Reader.u32
  let major ← Reader.byte
  let minor ← Reader.byte
  if major != 2 || minor != 0 then Reader.malformed (.tablesVersion major.toNat minor.toNat)
  let heapSizes ← Reader.byte
  let _ ← Reader.byte
  let valid ← Reader.u64
  let sorted ← Reader.u64
  let counts ← (setBits valid).mapM (readCount allowed)
  return (.ofCounts counts heapSizes, valid, sorted, counts)

def parse (allowed : List Table) (data : Bytes) : Result TableStream :=
  match (readHeader allowed).run (.start data) with
  | .error e _ => .error e
  | .ok (layout, valid, sorted, counts) c => do
    return ⟨data, layout, valid, sorted, ← place layout data.length c.position counts⟩

/-- All rows of a table. -/
def values (s : TableStream) (t : Table) : Result (List (Values t.columns)) :=
  match s.places.find? (·.table == t) with
  | none => .ok []
  | some place =>
    (Reader.times place.rows (s.layout.readValues t.columns)).parse (s.data.drop place.offset)

def rows (s : TableStream) (ρ : Type) [TableRow ρ] : Result (List ρ) :=
  (s.values (TableRow.table ρ)).map (·.map TableRow.ofValues)

end TableStream

/-- A table stream under construction. Its layout is fixed beforehand. -/
structure TableStreamBuilder where
  layout : Layout
  valid : UInt64 := 0
  counts : List Nat := []
  rows : Bytes := []
  last? : Option Table := none

namespace TableStreamBuilder

/-- Adds the rows of a table; a table without rows leaves no trace. When a row cannot be written,
    the columns in front of the failure stay in the stream. -/
def addValues (t : Table) (rows : List (Values t.columns)) :
    EStateM Error TableStreamBuilder Unit := do
  if rows.isEmpty then return
  let b ← get
  if b.last?.any fun last => t.number ≤ last.number then
    throw (.malformed (.tableOrder t))
  if rows.length != b.layout.rows t then
    throw (.malformed (.tableRowCount t rows.length (b.layout.rows t)))
  let pieces := rows.flatMap (b.layout.writeValues t.columns)
  match joinPieces pieces with
  | .error e =>
    set { b with rows := b.rows ++ piecesBeforeFailure pieces }
    throw e
  | .ok bytes =>
    set { b with
      valid := b.valid ||| t.mask
      counts := b.counts ++ [rows.length]
      rows := b.rows ++ bytes
      last? := some t }

def add {ρ : Type} [TableRow ρ] (rows : List ρ) : EStateM Error TableStreamBuilder Unit :=
  addValues (TableRow.table ρ) (rows.map TableRow.toValues)

def build (b : TableStreamBuilder) : Bytes :=
  padTo 4
    (u32Bytes 0 ++ [2, 0, b.layout.heapSizes, 1] ++ u64Bytes b.valid ++ u64Bytes 0
      ++ b.counts.flatMap (leBytes 4) ++ b.rows)

end TableStreamBuilder

end CilWeaver
