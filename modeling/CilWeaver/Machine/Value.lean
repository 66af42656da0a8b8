import CilWeaver.Text.Digits

/-!
The values of the emulated machine.
-/

namespace CilWeaver

inductive Value where
  | void
  | int32 (n : Int32)
  | int64 (n : Int64)
deriving DecidableEq, Inhabited

namespace Value

def ofBool (b : Bool) : Value := .int32 (if b then 1 else 0)

def int32? : Value → Option Int32
  | int32 n => some n
  | _ => none

/-- The number, if the value has one, in the wider width. -/
def int64? : Value → Option Int64
  | void => none
  | int32 n => some n.toInt64
  | int64 n => some n

/-- Whether the value is a number other than zero. -/
def isTrue (v : Value) : Bool :=
  match v.int64? with
  | none => false
  | some n => n != 0

/-- The number in digits; an `L` marks the wider width. -/
def text : Value → String
  | void => "void"
  | int32 n => Text.integer n.toInt
  | int64 n => Text.integer n.toInt ++ "L"

end Value

end CilWeaver
