import CilWeaver.Debug.Point
import CilWeaver.Error
import CilWeaver.Instruction.Basic
import CilWeaver.Signature.Basic

/-!
Method bodies as instructions. All positions in a body are instruction indices: the targets of
branches, the bounds of exception regions and the places of source points. `MethodBody.insert` moves
them along with the instructions.
-/

namespace CilWeaver

/-- When the handler of a region runs: for exceptions of a type, when a filter accepts them, on
    every way out of the protected code, or for exceptions only. -/
inductive RegionKind where
  | catches (type : Token)
  | filter (start : Nat)
  | cleanup
  | fault
deriving DecidableEq

def RegionKind.map (f : Nat → Nat) : RegionKind → RegionKind
  | catches type => catches type
  | filter start => filter (f start)
  | cleanup => cleanup
  | fault => fault

/-- Protected code and its handler, each from its first instruction up to the one behind it. -/
structure Region where
  kind : RegionKind
  tryStart : Nat
  tryEnd : Nat
  handlerStart : Nat
  handlerEnd : Nat
deriving DecidableEq

def Region.map (f : Nat → Nat) (r : Region) : Region :=
  ⟨r.kind.map f, f r.tryStart, f r.tryEnd, f r.handlerStart, f r.handlerEnd⟩

/-- The source points of a body, and the row of the signature of its locals. -/
structure BodySymbols where
  localSignature : UInt32
  points : List SourcePoint
deriving DecidableEq

def BodySymbols.map (f : Nat → Nat) (s : BodySymbols) : BodySymbols :=
  { s with points := s.points.map (·.map f) }

structure MethodBody where
  code : List Instruction
  maxStack : UInt16 := 8
  initLocals : Bool := false
  localSignature : Token := .null
  locals : List TypeSig := []
  regions : List Region := []
  symbols? : Option BodySymbols := none
deriving DecidableEq

namespace MethodBody

def length (b : MethodBody) : Nat := b.code.length

def isEmpty (b : MethodBody) : Bool := b.code.isEmpty

/-- Renumbers every position of the body, and leaves the instructions where they are. -/
def renumber (f : Nat → Nat) (b : MethodBody) : MethodBody :=
  { b with
    code := b.code.map (·.map f)
    regions := b.regions.map (·.map f)
    symbols? := b.symbols?.map (·.map f) }

/-- Where a position goes when `count` instructions are inserted at `start`. -/
def shift (start count index : Nat) : Nat := if start ≤ index then index + count else index

/-- Inserts instructions in front of the one with the index `start`, or at the end. What named a
    position from `start` on, names the moved position afterwards. -/
def insert (b : MethodBody) (start : Nat) (code : List Instruction) : Result MethodBody :=
  if b.length < start then .error .outOfBounds
  else
    let moved := b.renumber (shift start code.length)
    .ok { moved with code := moved.code.take start ++ code ++ moved.code.drop start }

def prepend (b : MethodBody) (code : List Instruction) : Result MethodBody := b.insert 0 code

/-- Checks that both ranges of a region hold an instruction and lie in a body of `count`. -/
def checkRegion (count number : Nat) (r : Region) : Except EmissionFault Unit :=
  let bad (start stop : Nat) : Bool := stop ≤ start || count < stop
  if bad r.tryStart r.tryEnd then .error (.regionRange number r.tryStart r.tryEnd count)
  else if bad r.handlerStart r.handlerEnd then
    .error (.regionRange number r.handlerStart r.handlerEnd count)
  else match r.kind with
    | .filter start => if count ≤ start then .error (.filterStart number start count) else .ok ()
    | _ => .ok ()

/-- Checks that points follow each other, name an instruction and one of the documents. -/
def checkPoints (count documents : Nat) : (previous? : Option Nat) → List SourcePoint →
    Except EmissionFault Unit
  | _, [] => .ok ()
  | previous?, p :: ps =>
    if count ≤ p.place then .error (.pointPosition p.place count)
    else if previous?.any (p.place ≤ ·) then .error (.pointOrder p.place)
    else if p.document == 0 || documents < p.document.toNat then
      .error (.pointDocument p.place p.document.toNat documents)
    else checkPoints count documents (some p.place) ps

/-- Checks the positions of the body in a module with the given number of documents. -/
def checkIndices (b : MethodBody) (documents : Nat) : Except EmissionFault Unit := do
  b.regions.zipIdx.forM fun (r, number) => checkRegion b.length number r
  match b.symbols? with
  | some symbols => checkPoints b.length documents none symbols.points
  | none => .ok ()

end MethodBody

end CilWeaver
