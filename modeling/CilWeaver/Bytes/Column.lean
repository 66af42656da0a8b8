import CilWeaver.Bytes.Reader

/-!
Columns of two or four bytes: the rows of a table agree on the width.
-/

namespace CilWeaver

def columnWidth (wide : Bool) : Nat := if wide then 4 else 2

/-- Writes a value at the given width, if it fits. -/
def column (wide : Bool) (value : Nat) : Result Bytes :=
  if value < 256 ^ columnWidth wide then .ok (leBytes (columnWidth wide) value)
  else .error (.malformed (.columnOverflow value))

def Reader.column (wide : Bool) : Reader Nat := do return leNat (← take (columnWidth wide))

end CilWeaver
