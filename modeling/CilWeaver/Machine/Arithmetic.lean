import CilWeaver.Machine.Value

/-!
The arithmetic of the emulated machine, once for both widths of a number. Nothing here is undefined:
an operation without a result has the answer `none`.
-/

namespace CilWeaver

inductive Arithmetic where
  | add
  | sub
  | mul
  | div
  | divUnsigned
  | rem
  | remUnsigned
  | and
  | or
  | xor
deriving DecidableEq

inductive Shift where
  | left
  | right
  | rightUnsigned
deriving DecidableEq

inductive Conversion where
  | int8
  | uint8
  | int16
  | uint16
  | word
  | int64
  | uint64
deriving DecidableEq

inductive Relation where
  | equal
  | notEqual
  | greater
  | greaterOrEqual
  | less
  | lessOrEqual
deriving DecidableEq

/-- A relation, between numbers with or without sign. -/
structure Comparison where
  relation : Relation
  unsigned : Bool := false
deriving DecidableEq

namespace Value

/-- Changes the bits of a number; `void` has none. -/
def mapBits? (v : Value) (f : {width : Nat} → BitVec width → BitVec width) : Option Value :=
  match v with
  | void => none
  | int32 a => some (.int32 (.ofBitVec (f a.toBitVec)))
  | int64 a => some (.int64 (.ofBitVec (f a.toBitVec)))

end Value

namespace Arithmetic

variable {width : Nat}

/-- Whether a signed quotient exists: the divisor is not zero, and the quotient is not one above the
    largest number. -/
def divides (a b : BitVec width) : Bool :=
  b != 0 && !(a == BitVec.intMin width && b == BitVec.allOnes width)

def ofBits (op : Arithmetic) (a b : BitVec width) : Option (BitVec width) :=
  match op with
  | add => some (a + b)
  | sub => some (a - b)
  | mul => some (a * b)
  | div => if divides a b then some (a.sdiv b) else none
  | divUnsigned => if b != 0 then some (a.udiv b) else none
  | rem => if divides a b then some (a.srem b) else none
  | remUnsigned => if b != 0 then some (a.umod b) else none
  | and => some (a &&& b)
  | or => some (a ||| b)
  | xor => some (a ^^^ b)

/-- The result on two values of one width. The outer answer is missing if the widths differ, the
    inner one if there is no result. -/
def eval? (op : Arithmetic) : Value → Value → Option (Option Value)
  | .int32 a, .int32 b => some ((op.ofBits a.toBitVec b.toBitVec).map (.int32 <| .ofBitVec ·))
  | .int64 a, .int64 b => some ((op.ofBits a.toBitVec b.toBitVec).map (.int64 <| .ofBitVec ·))
  | _, _ => none

end Arithmetic

/-- Shifts by the amount modulo the width. -/
def Shift.ofBits {width : Nat} (s : Shift) (amount : Nat) (a : BitVec width) : BitVec width :=
  match s with
  | left => a <<< (amount % width)
  | right => a.sshiftRight (amount % width)
  | rightUnsigned => a >>> (amount % width)

/-- A value shifted by the bits of a number without sign. -/
def Shift.eval? (s : Shift) (amount : Int32) (v : Value) : Option Value :=
  v.mapBits? (s.ofBits amount.toUInt32.toNat)

def Value.negate? (v : Value) : Option Value := v.mapBits? (- ·)

def Value.complement? (v : Value) : Option Value := v.mapBits? (~~~ ·)

/-- A converted value. A number without sign widens with zeros, any other keeps its value as far as
    the new width allows. -/
def Conversion.eval? (c : Conversion) (v : Value) : Option Value :=
  v.int64?.map fun n =>
    match c with
    | int8 => .int32 n.toInt8.toInt32
    | uint8 => .int32 n.toUInt64.toUInt8.toUInt32.toInt32
    | int16 => .int32 n.toInt16.toInt32
    | uint16 => .int32 n.toUInt64.toUInt16.toUInt32.toInt32
    | word => .int32 n.toInt32
    | int64 => .int64 n
    | uint64 =>
      match v with
      | .int32 narrow => .int64 narrow.toUInt32.toUInt64.toInt64
      | _ => .int64 n

namespace Comparison

variable {width : Nat}

def isLess (unsigned : Bool) (a b : BitVec width) : Bool := if unsigned then a.ult b else a.slt b

def ofBits (c : Comparison) (a b : BitVec width) : Bool :=
  match c.relation with
  | .equal => a == b
  | .notEqual => a != b
  | .greater => isLess c.unsigned b a
  | .greaterOrEqual => !isLess c.unsigned a b
  | .less => isLess c.unsigned a b
  | .lessOrEqual => !isLess c.unsigned b a

/-- Whether two values of one width are so related. -/
def eval? (c : Comparison) : Value → Value → Option Bool
  | .int32 a, .int32 b => some (c.ofBits a.toBitVec b.toBitVec)
  | .int64 a, .int64 b => some (c.ofBits a.toBitVec b.toBitVec)
  | _, _ => none

end Comparison

end CilWeaver
