import CilWeaver.Decimal.FloatText
import CilWeaver.Instruction.Basic
import CilWeaver.Text.Digits
import CilWeaver.Text.Unprintable

/-!
Texts of instructions: the line of a listing, and the detailed form that messages carry. The literals in them are
quoted: double quotes around the text, a backslash in front of what has a meaning of its own, and the number of every
character that cannot be shown.
-/

namespace CilWeaver.Text

def isPlainAscii (c : Char) : Bool := 0x20 ≤ c.toNat && c.toNat < 0x7F

/-- How one character is written between the quotes. -/
def quoteChar (c : Char) : List Char :=
  if c = '\x00' then ['\\', '0']
  else if c = '\t' then ['\\', 't']
  else if c = '\r' then ['\\', 'r']
  else if c = '\n' then ['\\', 'n']
  else if c = '\\' then ['\\', '\\']
  else if c = '"' then ['\\', '"']
  else if isPlainAscii c || isPrintable c then [c]
  else ['\\', 'u', '\x7b'] ++ Nat.toDigits 16 c.toNat ++ ['\x7d']

def quoted (text : String) : String :=
  String.ofList ('"' :: text.toList.flatMap quoteChar ++ ['"'])

end CilWeaver.Text

namespace CilWeaver

open Decimal (single double)

/-- A branch target in a listing. -/
def targetLabel (t : Nat) : String := "IL_" ++ Text.decimal t 4

namespace OperandAt

/-- The operand as a listing shows it, behind the mnemonic and a blank. -/
def listing? : Operand → Option String
  | none => Option.none
  | int32 v => some (Text.integer v.toInt)
  | int64 v => some (Text.integer v.toInt)
  | float32 b => some (single.read b.toNat).plain
  | float64 b => some (double.read b.toNat).plain
  | slot i => some (Text.decimal i.toNat)
  | string s => some (Text.quoted s)
  | token t => some t.upperText
  | target t => some (targetLabel t)
  | switch ts => some ("(" ++ ", ".intercalate (ts.map targetLabel) ++ ")")

/-- The operand with the name of its kind. -/
def detail : Operand → String
  | none => "None"
  | int32 v => s!"Int32({Text.integer v.toInt})"
  | int64 v => s!"Int64({Text.integer v.toInt})"
  | float32 b => s!"Float32({(single.read b.toNat).detailed})"
  | float64 b => s!"Float64({(double.read b.toNat).detailed})"
  | slot i => s!"Variable({Text.decimal i.toNat})"
  | string s => s!"String({Text.quoted s})"
  | token t => s!"Token({t.detail})"
  | target t => s!"Target({Text.decimal t})"
  | switch ts => "Switch([" ++ ", ".intercalate (ts.map fun t => Text.decimal t) ++ "])"

end OperandAt

/-- One line of a listing. -/
def Instruction.text (i : Instruction) : String :=
  match i.operand.listing? with
  | none => i.mnemonic
  | some operand => i.mnemonic ++ " " ++ operand

end CilWeaver
