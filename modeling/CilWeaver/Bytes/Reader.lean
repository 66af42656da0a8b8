import CilWeaver.Bytes.LittleEndian
import CilWeaver.Error

/-!
Readers: steps over a byte list that remember their position, also when they fail.
-/

namespace CilWeaver

/-- A place in some data: how far it is from the start, and what lies ahead. -/
structure Cursor where
  position : Nat
  rest : Bytes

namespace Cursor

def start (data : Bytes) : Cursor := ⟨0, data⟩

/-- The place `position` bytes into the data; its end is a place, too. -/
def at? (data : Bytes) (position : Nat) : Option Cursor :=
  if position ≤ data.length then some ⟨position, data.drop position⟩ else none

end Cursor

/-- A step that reads. A failing step says where it stopped. -/
abbrev Reader := EStateM Error Cursor

namespace Reader

variable {α β : Type}

/-- Reads from the start of the data on. -/
def parse (r : Reader α) (data : Bytes) : Result α :=
  match r.run (.start data) with
  | .ok a _ => .ok a
  | .error e _ => .error e

def malformed (defect : Defect) : Reader α := throw (.malformed defect)

/-- Changes the error of a failing step. -/
def mapError (f : Error → Error) (r : Reader α) : Reader α := fun c =>
  match r c with
  | .ok a c => .ok a c
  | .error e c => .error (f e) c

/-- Replaces any failure by a defect. -/
def orDefect (r : Reader α) (defect : Defect) : Reader α := r.mapError fun _ => .malformed defect

def ofResult : Result α → Reader α
  | .ok a => return a
  | .error e => throw e

def position : Reader Nat := fun c => .ok c.position c

def hasMore : Reader Bool := fun c => .ok (!c.rest.isEmpty) c

/-- The number of bytes that lie ahead. -/
def remaining : Reader Nat := fun c => .ok c.rest.length c

def peek : Reader UInt8 := fun c =>
  match c.rest with
  | [] => .error .outOfBounds c
  | b :: _ => .ok b c

def byte : Reader UInt8 := fun c =>
  match c.rest with
  | [] => .error .outOfBounds c
  | b :: rest => .ok b ⟨c.position + 1, rest⟩

/-- The next `count` bytes, or a failure that consumes none. -/
def take (count : Nat) : Reader Bytes := fun c =>
  let bytes := c.rest.take count
  if bytes.length = count then .ok bytes ⟨c.position + count, c.rest.drop count⟩
  else .error .outOfBounds c

def skip (count : Nat) : Reader Unit := do
  let _ ← take count

/-- Goes on to the next position that is a multiple of `alignment`. -/
def align (alignment : Nat) : Reader Unit := do
  skip (padding alignment (← position))

def u16 : Reader UInt16 := do return UInt16.ofNat (leNat (← take 2))

def u32 : Reader UInt32 := do return UInt32.ofNat (leNat (← take 4))

def u64 : Reader UInt64 := do return UInt64.ofNat (leNat (← take 8))

/-- Runs the reader `count` times; `done` holds the results so far, last one first. -/
def timesFrom (r : Reader α) (done : List α) : (count : Nat) → Reader (List α)
  | 0 => return done.reverse
  | count + 1 => do
    let a ← r
    timesFrom r (a :: done) count

def times (count : Nat) (r : Reader α) : Reader (List α) := timesFrom r [] count

/-- Runs the reader until no byte is left. A reader that consumes nothing would not get there, so
    the number of runs is bounded by the number of bytes. -/
def untilEndFrom (r : Reader α) (done : List α) : (fuel : Nat) → Reader (List α)
  | 0 => return done.reverse
  | fuel + 1 => do
    if ← hasMore then
      let a ← r
      untilEndFrom r (a :: done) fuel
    else return done.reverse

def untilEnd (r : Reader α) : Reader (List α) := fun c => untilEndFrom r [] c.rest.length c

/-- A text up to the next zero byte, or up to the end. The zero byte is consumed, also when the text
    is not well formed. -/
def zeroTerminated : Reader String := fun c =>
  let bytes := c.rest.takeWhile (· != 0)
  let stop := c.position + bytes.length
  let after : Cursor := match c.rest.drop bytes.length with
    | [] => ⟨stop, []⟩
    | _ :: rest => ⟨stop + 1, rest⟩
  match Utf8.decode bytes with
  | .ok text => .ok (String.ofList text) after
  | .error fault => .error (.malformed (.notUtf8 c.position stop fault)) after

end Reader

end CilWeaver
