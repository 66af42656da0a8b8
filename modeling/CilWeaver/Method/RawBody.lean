import CilWeaver.Bytes.Reader

/-!
Method bodies in bytes. A tiny body is one byte that holds the size of the code, and the code. A fat
body has a header of twelve bytes and may have sections of exception clauses behind its code, which
start at multiples of four. A section has small clauses of twelve bytes or fat ones of twenty-four.
-/

namespace CilWeaver

/-- What an exception clause does. A clause without flags catches exceptions of a type; at most one
    flag is set in a clause that can be read. `cleanup` is a handler for every way out of the
    protected code, `fault` one for exceptions only. -/
structure ClauseFlags where
  filter : Bool := false
  cleanup : Bool := false
  fault : Bool := false
deriving DecidableEq, Repr

namespace ClauseFlags

def number (f : ClauseFlags) : Nat :=
  (if f.filter then 1 else 0) + (if f.cleanup then 2 else 0) + (if f.fault then 4 else 0)

/-- The known flags among the bits of a number. -/
def ofBits (bits : Nat) : ClauseFlags := ⟨bits.testBit 0, bits.testBit 1, bits.testBit 2⟩

/-- The clause kinds that may be read: no flag, or one of them. -/
def ofNumber? : Nat → Option ClauseFlags
  | 0 => some {}
  | 1 => some { filter := true }
  | 2 => some { cleanup := true }
  | 4 => some { fault := true }
  | _ => none

theorem ofBits_number (f : ClauseFlags) : ofBits f.number = f := by
  obtain ⟨filter, cleanup, fault⟩ := f
  revert filter cleanup fault
  decide

theorem number_lt (f : ClauseFlags) : f.number < 8 := by
  obtain ⟨filter, cleanup, fault⟩ := f
  revert filter cleanup fault
  decide

end ClauseFlags

/-- An exception clause; the protected code and the handler are ranges of bytes of the code. The
    `argument` is the token of the type to catch, or the offset where the filter starts. -/
structure Clause where
  flags : ClauseFlags
  tryOffset : UInt32
  tryLength : UInt32
  handlerOffset : UInt32
  handlerLength : UInt32
  argument : UInt32
deriving DecidableEq

/-- Whether the clause can be written in twelve bytes. -/
def Clause.fitsSmall (c : Clause) : Bool :=
  c.tryOffset ≤ 0xFFFF && c.tryLength ≤ 0xFF && c.handlerOffset ≤ 0xFFFF && c.handlerLength ≤ 0xFF

structure RawBody where
  code : Bytes
  maxStack : UInt16
  initLocals : Bool
  localSignature : Token
  clauses : List Clause
deriving DecidableEq

/-- A body that was read, with the size of its header and the size of all of it. -/
structure StoredBody extends RawBody where
  headerSize : Nat
  totalSize : Nat
deriving DecidableEq

namespace RawBody

/-- The most bytes of code in a tiny body. -/
def tinyCodeMax : Nat := 0x3F

/-- The stack size of a tiny body. -/
def tinyMaxStack : UInt16 := 8

def fatHeaderSize : Nat := 12

def tinyFormat : Nat := 0x02
def fatFormat : Nat := 0x03
def moreSectionsFlag : Nat := 0x08
def initLocalsFlag : Nat := 0x10

def sectionClauses : Nat := 0x01
def sectionOther : Nat := 0x02
def sectionFat : Nat := 0x40
def sectionMore : Nat := 0x80

/-- The bits of a section's first byte that have a meaning. -/
def sectionMask : Nat := 0xC3

def fitsTiny (b : RawBody) : Bool :=
  b.code.length ≤ tinyCodeMax && b.maxStack == tinyMaxStack && !b.initLocals
    && b.localSignature.isNull && b.clauses.isEmpty

end RawBody

namespace StoredBody

open RawBody

/-- Whether the body has the large header. -/
def isFat (b : StoredBody) : Bool := b.headerSize == fatHeaderSize

def readClauseFlags (number : Nat) : Reader ClauseFlags :=
  match ClauseFlags.ofNumber? number with
  | some flags => return flags
  | none => Reader.malformed (.clauseKind number)

def readSmallClause : Reader Clause := do
  let flags ← readClauseFlags (← Reader.u16).toNat
  let tryOffset ← Reader.u16
  let tryLength ← Reader.byte
  let handlerOffset ← Reader.u16
  let handlerLength ← Reader.byte
  let argument ← Reader.u32
  return ⟨flags, tryOffset.toUInt32, tryLength.toUInt32, handlerOffset.toUInt32,
    handlerLength.toUInt32, argument⟩

/-- Of the flags of a fat clause only the low half is looked at. -/
def readFatClause : Reader Clause := do
  let flags ← readClauseFlags ((← Reader.u32).toNat % 2 ^ 16)
  let tryOffset ← Reader.u32
  let tryLength ← Reader.u32
  let handlerOffset ← Reader.u32
  let handlerLength ← Reader.u32
  let argument ← Reader.u32
  return ⟨flags, tryOffset, tryLength, handlerOffset, handlerLength, argument⟩

def readFatSection : Reader (List Clause) := do
  let size := leNat (← Reader.take 3)
  if size < 4 || (size - 4) % 24 != 0 then Reader.malformed (.fatSectionSize size)
  Reader.times ((size - 4) / 24) readFatClause

def readSmallSection : Reader (List Clause) := do
  let size := (← Reader.byte).toNat
  let _ ← Reader.u16
  if size < 4 || (size - 4) % 12 != 0 then Reader.malformed (.smallSectionSize size)
  Reader.times ((size - 4) / 12) readSmallClause

/-- Reads the clauses of one section, and whether another section follows. -/
def readSection : Reader (List Clause × Bool) := do
  (Reader.align 4).orDefect .sectionMissing
  let kind := (← Reader.byte.orDefect .sectionMissing).toNat &&& sectionMask
  if kind &&& sectionClauses == 0 || kind &&& sectionOther != 0 then
    Reader.malformed (.sectionKind kind)
  let clauses ← if kind &&& sectionFat != 0 then readFatSection else readSmallSection
  return (clauses, kind &&& sectionMore != 0)

/-- Reads sections up to the last one. `done` holds the clauses so far. -/
def readSections (done : List Clause) : (fuel : Nat) → Reader (List Clause)
  | 0 => Reader.malformed .sectionMissing
  | fuel + 1 => do
    let (clauses, more) ← readSection
    if more then readSections (done ++ clauses) fuel else return done ++ clauses

def readTiny (first : Nat) : Reader StoredBody := do
  Reader.skip 1
  let size := first / 4
  let code ← (Reader.take size).orDefect (.tinyBodySize size)
  return { code, maxStack := tinyMaxStack, initLocals := false, localSignature := .null,
           clauses := [], headerSize := 1, totalSize := ← Reader.position }

/-- A section takes four bytes at least, so there are no more sections than bytes left. -/
def readFat : Reader StoredBody := do
  if (← Reader.remaining) < fatHeaderSize then Reader.malformed .fatHeaderTruncated
  let first := (← Reader.u16).toNat
  let maxStack ← Reader.u16
  let size := (← Reader.u32).toNat
  let localSignature : Token := ⟨← Reader.u32⟩
  let headerSize := first / 2 ^ 12 * 4
  if headerSize != fatHeaderSize then
    Reader.malformed (.fatHeaderSize headerSize fatHeaderSize)
  let code ← (Reader.take size).orDefect (.bodySize size)
  let clauses ←
    if first &&& moreSectionsFlag != 0 then readSections [] (← Reader.remaining) else pure []
  return { code, maxStack, initLocals := first &&& initLocalsFlag != 0, localSignature, clauses,
           headerSize, totalSize := ← Reader.position }

def read : Reader StoredBody := do
  let first := (← Reader.peek.orDefect .noBodyData).toNat
  if first % 4 == tinyFormat then readTiny first
  else if first % 4 == fatFormat then readFat
  else Reader.malformed (.bodyFormat (.ofNat first))

/-- Reads the body at the start of the data. -/
def parse (data : Bytes) : Result StoredBody := read.parse data

end StoredBody

namespace RawBody

def smallClause (c : Clause) : Bytes :=
  leBytes 2 c.flags.number ++ leBytes 2 c.tryOffset.toNat ++ leBytes 1 c.tryLength.toNat
    ++ leBytes 2 c.handlerOffset.toNat ++ leBytes 1 c.handlerLength.toNat ++ u32Bytes c.argument

def fatClause (c : Clause) : Bytes :=
  leBytes 4 c.flags.number ++ u32Bytes c.tryOffset ++ u32Bytes c.tryLength
    ++ u32Bytes c.handlerOffset ++ u32Bytes c.handlerLength ++ u32Bytes c.argument

/-- One section for all clauses, the small kind if they all fit it. -/
def clauseSection (clauses : List Clause) : Except Defect Bytes :=
  let smallSize := 4 + 12 * clauses.length
  let fatSize := 4 + 24 * clauses.length
  if smallSize ≤ 0xFF ∧ clauses.all Clause.fitsSmall then
    .ok (UInt8.ofNat sectionClauses :: leBytes 1 smallSize ++ leBytes 2 0
      ++ clauses.flatMap smallClause)
  else if 0x00FFFFFF < fatSize then .error (.tooManyClauses clauses.length)
  else
    .ok (UInt8.ofNat (sectionClauses + sectionFat) :: leBytes 3 fatSize
      ++ clauses.flatMap fatClause)

def fatHeader (b : RawBody) : Bytes :=
  let flags := fatFormat + (if b.initLocals then initLocalsFlag else 0)
    + (if b.clauses.isEmpty then 0 else moreSectionsFlag)
  leBytes 2 (flags + fatHeaderSize / 4 * 2 ^ 12) ++ u16Bytes b.maxStack
    ++ leBytes 4 b.code.length ++ u32Bytes b.localSignature.value

/-- The bytes of a body that is placed at position `start`, on which the alignment of its section
    depends. -/
def encode (start : Nat) (b : RawBody) : Except Defect Bytes :=
  if b.fitsTiny then .ok (UInt8.ofNat (4 * b.code.length + tinyFormat) :: b.code)
  else if 2 ^ 32 ≤ b.code.length then .error .codeTooLarge
  else
    let front := b.fatHeader ++ b.code
    if b.clauses.isEmpty then .ok front
    else do
      let clauses ← clauseSection b.clauses
      return front ++ zeros (padding 4 (start + front.length)) ++ clauses

end RawBody

end CilWeaver
