import CilWeaver.Error

/-!
The number in a column that refers to a row of one of several tables: the row, moved up by the bits
of the tag that selects the table.
-/

namespace CilWeaver.CodedIndex

def token (i : CodedIndex) : Token := .ofRow i.table i.row

def isNull (i : CodedIndex) : Bool := i.row == 0

/-- The reference to the row of a token, if its table is a candidate. -/
def ofToken (kind : CodedKind) (token : Token) : Result CodedIndex :=
  match kind.tables.find? (·.number == token.tableNumber) with
  | some table => .ok ⟨table, token.row⟩
  | none => .error (.malformed (.codedToken token kind))

def decode (kind : CodedKind) (value : Nat) : Result CodedIndex :=
  let tag := value % 2 ^ kind.tagBits
  match kind.tables[tag]? with
  | some table => .ok ⟨table, value / 2 ^ kind.tagBits⟩
  | none => .error (.malformed (.codedTag tag kind))

/-- The number to store. It has 32 bits, so the highest bits of a row beyond the reach of tokens are
    lost. -/
def encode (kind : CodedKind) (i : CodedIndex) : Result Nat :=
  match kind.tables.idxOf? i.table with
  | some tag => .ok ((i.row * 2 ^ kind.tagBits + tag) % 2 ^ 32)
  | none => .error (.malformed (.codedTable i.table kind))

end CilWeaver.CodedIndex
