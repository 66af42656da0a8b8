import CilWeaver.Text.Digits
import CilWeaver.Table.Basic

/-!
Metadata tokens: a table number in the high byte and a row number, counted from one, in the other
three.
-/

namespace CilWeaver

structure Token where
  value : UInt32
deriving DecidableEq, Repr, Inhabited

namespace Token

def null : Token := ⟨0⟩

/-- The number of the table the token points into; not every number belongs to a table. -/
def tableNumber (t : Token) : Nat := t.value.toNat / 2 ^ 24

def table? (t : Token) : Option Table := Table.ofNumber? t.tableNumber

def row (t : Token) : Nat := t.value.toNat % 2 ^ 24

/-- The token of a row, of which the low 24 bits count. -/
def ofRow (table : Table) (row : Nat) : Token :=
  ⟨UInt32.ofNat (table.number * 2 ^ 24 + row % 2 ^ 24)⟩

def isNull (t : Token) : Bool := t.value == 0

def isIn (t : Token) (table : Table) : Bool := t.tableNumber == table.number

/-- Tokens are ordered by their value: by table first, then by row. -/
def isBefore (s t : Token) : Bool := s.value < t.value

def text (t : Token) : String := "0x" ++ Text.hex t.value.toNat 8

def upperText (t : Token) : String := "0x" ++ Text.hexUpper t.value.toNat 8

def detail (t : Token) : String :=
  s!"Token({t.text}, table: 0x{Text.hex t.tableNumber 2}, row: {t.row})"

theorem toNat_ofRow (table : Table) (row : Nat) :
    (ofRow table row).value.toNat = table.number * 2 ^ 24 + row % 2 ^ 24 := by
  have := table.number_lt
  simp only [ofRow, UInt32.toNat_ofNat']
  omega

theorem tableNumber_ofRow (table : Table) (row : Nat) :
    (ofRow table row).tableNumber = table.number := by
  rw [tableNumber, toNat_ofRow]
  omega

theorem row_ofRow (table : Table) (row : Nat) : (ofRow table row).row = row % 2 ^ 24 := by
  rw [Token.row, toNat_ofRow]
  omega

theorem table?_ofRow (table : Table) (row : Nat) : (ofRow table row).table? = some table := by
  rw [table?, tableNumber_ofRow, Table.ofNumber?_number]

theorem row_lt (t : Token) : t.row < 2 ^ 24 := Nat.mod_lt _ (by decide)

theorem ext_row {s t : Token} (htable : s.tableNumber = t.tableNumber) (hrow : s.row = t.row) :
    s = t := by
  obtain ⟨s⟩ := s
  obtain ⟨t⟩ := t
  simp only [tableNumber, row] at htable hrow
  exact congrArg Token.mk (UInt32.toNat.inj (by omega))

end Token

end CilWeaver
