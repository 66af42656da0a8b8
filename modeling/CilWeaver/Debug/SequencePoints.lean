import CilWeaver.Bytes.Compressed
import CilWeaver.Debug.Point

/-!
The stored form of the points of a method: records of differences between one point and the next. A
record may also move on to another document.
-/

namespace CilWeaver

/-- The sequence points of a method, and the row of the signature of its locals. -/
structure SequencePoints where
  localSignature : UInt32
  points : List SequencePoint
deriving DecidableEq

namespace SequencePoints

def atOffset? (s : SequencePoints) (offset : UInt32) : Option SequencePoint :=
  s.points.find? (·.place == offset)

/-- The document of all points, if it is the same one. -/
def document? (s : SequencePoints) : Option UInt32 :=
  match s.points with
  | [] => none
  | p :: ps => if ps.all (·.document == p.document) then some p.document else none

/-- What the differences of a record refer to: the current document, the offset of the last point
    and the start of the last point that is not hidden. -/
structure Context where
  document : UInt32
  offset? : Option UInt32 := none
  start? : Option (UInt32 × UInt16) := none

/-! Reading -/

def readDocument (null : Defect) : Reader UInt32 := do
  let document ← Reader.compressed
  if document == 0 then Reader.malformed null
  return .ofNat document

def checkColumn (column : Int) : Reader UInt16 := do
  if column < 0 || 2 ^ 16 ≤ column then Reader.malformed (.pointColumn column)
  return .ofNat column.toNat

/-- Reads the lines and columns of a point, the differences of which have been read. -/
def readVisible (offset : UInt32) (c : Context) (lines : Nat) (columns : Int) :
    Reader SequencePoint := do
  let (startLine, startColumn) ← match c.start? with
    | none => do
      let line ← Reader.compressed
      let column ← Reader.compressed
      pure ((line : Int), (column : Int))
    | some (line, column) => do
      let lineStep ← Reader.compressedInt
      let columnStep ← Reader.compressedInt
      pure ((line.toNat : Int) + lineStep, (column.toNat : Int) + columnStep)
  let endLine := startLine + lines
  if startLine < 1 || PointAt.maxLine < endLine
      || startLine == PointAt.hiddenLine.toNat then
    Reader.malformed (.pointLines startLine endLine)
  let first ← checkColumn startColumn
  let last ← checkColumn (startColumn + columns)
  return ⟨offset, c.document, .ofNat startLine.toNat, first, .ofNat endLine.toNat, last⟩

/-- Reads the rest of a record that is a point. -/
def readPoint (c : Context) (offset : UInt32) : Reader (SequencePoint × Context) := do
  let lines ← Reader.compressed
  let columns ←
    if lines == 0 then (fun n : Nat => (n : Int)) <$> Reader.compressed else Reader.compressedInt
  if lines == 0 && columns == 0 then
    return (.hidden offset c.document, { c with offset? := some offset })
  let p ← readVisible offset c lines columns
  return (p, { c with offset? := some offset, start? := some (p.startLine, p.startColumn) })

/-- Reads one record; a step of zero behind the first point is a change of the document. -/
def readRecord (c : Context) : Reader (Option SequencePoint × Context) := do
  let step ← Reader.compressed
  match c.offset? with
  | none =>
    let (p, c) ← readPoint c (.ofNat step)
    return (some p, c)
  | some last =>
    if step == 0 then return (none, { c with document := ← readDocument .nullDocumentRecord })
    if 2 ^ 32 ≤ last.toNat + step then Reader.malformed .pointOffsetOverflow
    let (p, c) ← readPoint c (last + .ofNat step)
    return (some p, c)

/-- Reads records up to the end; `done` holds the points so far, last one first. A record takes a
    byte at least. -/
def readRecords (c : Context) (done : List SequencePoint) :
    (fuel : Nat) → Reader (List SequencePoint)
  | 0 => return done.reverse
  | fuel + 1 => do
    if ← Reader.hasMore then
      match ← readRecord c with
      | (some p, c) => readRecords c (p :: done) fuel
      | (none, c) => readRecords c done fuel
    else return done.reverse

/-- Reads the points of a method. `document` is zero when the blob names the first document. -/
def read (document : UInt32) : Reader SequencePoints := do
  let localSignature ← Reader.compressed
  let first ← if document == 0 then readDocument .pointsWithoutDocument else pure document
  let points ← readRecords { document := first } [] (← Reader.remaining)
  return ⟨.ofNat localSignature, points⟩

def parse (blob : Bytes) (document : UInt32) : Result SequencePoints := (read document).parse blob

/-! Writing -/

/-- The wording of every failure starts with this context. -/
def emissionContext : String := "sequence points"

def fault {α : Type} (f : EmissionFault) : Result α := .error (.emission emissionContext f)

/-- The record that changes the document, if the point lies in another one. -/
def encodeDocument (c : Context) (p : SequencePoint) : Result Bytes := do
  if p.document == 0 then fault (.pointWithoutDocument p.place.toNat)
  else if p.document == c.document then .ok []
  else if c.offset?.isNone then fault (.firstDocument c.document.toNat)
  else return (← compressed 0) ++ (← compressed p.document.toNat)

def encodeOffset (c : Context) (p : SequencePoint) : Result Bytes :=
  match c.offset? with
  | none => compressed p.place.toNat
  | some last =>
    if last < p.place then compressed (p.place.toNat - last.toNat)
    else fault (.pointNotAfter p.place.toNat last.toNat)

def encodeExtent (p : SequencePoint) : Result Bytes := do
  if p.endLine < p.startLine || p.startLine == 0 || PointAt.maxLine < p.endLine.toNat then
    fault (.pointLines p.place.toNat p.startLine.toNat p.endLine.toNat)
  let lines := p.endLine.toNat - p.startLine.toNat
  let columns : Int := p.endColumn.toNat - p.startColumn.toNat
  if lines == 0 && columns ≤ 0 then
    fault (.pointExtent p.place.toNat p.startLine.toNat p.startColumn.toNat p.endColumn.toNat)
  let first ← compressed lines
  let second ← if lines == 0 then compressed columns.toNat else compressedInt columns
  return first ++ second

def encodeStart (c : Context) (p : SequencePoint) : Result Bytes :=
  match c.start? with
  | none => do
    return (← compressed p.startLine.toNat) ++ (← compressed p.startColumn.toNat)
  | some (line, column) => do
    let lineStep ← compressedInt (p.startLine.toNat - line.toNat)
    return lineStep ++ (← compressedInt (p.startColumn.toNat - column.toNat))

def encodePoint (c : Context) (p : SequencePoint) : Result (Bytes × Context) := do
  let document ← encodeDocument c p
  let offset ← encodeOffset c p
  let c := { c with document := p.document, offset? := some p.place }
  if p.isHidden then
    let none := (← compressed 0) ++ (← compressed 0)
    return (document ++ offset ++ none, c)
  let extent ← encodeExtent p
  let start ← encodeStart c p
  return (document ++ offset ++ extent ++ start,
    { c with start? := some (p.startLine, p.startColumn) })

def encodePoints (c : Context) : List SequencePoint → Result Bytes
  | [] => .ok []
  | p :: ps => do
    let (record, c) ← encodePoint c p
    return record ++ (← encodePoints c ps)

/-- The blob of the points; with a `document` of zero it names the document of the first point. -/
def encode (s : SequencePoints) (document : UInt32) : Result Bytes := do
  let localSignature ← compressed s.localSignature.toNat
  if document == 0 then
    match s.points with
    | [] => fault .noDocument
    | p :: _ =>
      let first ← compressed p.document.toNat
      return localSignature ++ first ++ (← encodePoints { document := p.document } s.points)
  else return localSignature ++ (← encodePoints { document } s.points)

end SequencePoints

end CilWeaver
