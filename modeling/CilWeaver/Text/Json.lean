import CilWeaver.Text.Digits

/-!
Data as JSON text, each item and each field on a line of its own.
-/

namespace CilWeaver.Text

inductive Json where
  | bool (value : Bool)
  | number (value : Int)
  | string (text : String)
  | array (items : List Json)
  | object (fields : List (String × Json))

namespace Json

def escapeChar (c : Char) : List Char :=
  if c = '"' then ['\\', '"']
  else if c = '\\' then ['\\', '\\']
  else if c = '\n' then ['\\', 'n']
  else if c = '\r' then ['\\', 'r']
  else if c = '\t' then ['\\', 't']
  else if c = '\x08' then ['\\', 'b']
  else if c = '\x0c' then ['\\', 'f']
  else if c.toNat < 0x20 then ['\\', 'u'] ++ (hex c.toNat 4).toList
  else [c]

def quote (text : String) : String := String.ofList ('"' :: text.toList.flatMap escapeChar ++ ['"'])

/-- The start of a line, two blanks deeper for each level. -/
def newLine (depth : Nat) : String := String.ofList ('\n' :: List.replicate (2 * depth) ' ')

/-- Parts between two brackets, each on a line of its own. -/
def block (depth : Nat) (left right : String) (parts : List String) : String :=
  if parts.isEmpty then left ++ right
  else left ++ ",".intercalate (parts.map (newLine (depth + 1) ++ ·)) ++ newLine depth ++ right

mutual

def prettyAt (depth : Nat) : Json → String
  | bool value => if value then "true" else "false"
  | number value => integer value
  | string text => quote text
  | array items => block depth "[" "]" (prettyItems (depth + 1) items)
  | object fields => block depth "\x7b" "\x7d" (prettyFields (depth + 1) fields)

def prettyItems (depth : Nat) : List Json → List String
  | [] => []
  | item :: items => prettyAt depth item :: prettyItems depth items

def prettyFields (depth : Nat) : List (String × Json) → List String
  | [] => []
  | (name, value) :: fields =>
    (quote name ++ ": " ++ prettyAt depth value) :: prettyFields depth fields

end

def pretty (data : Json) : String := prettyAt 0 data

end Json

end CilWeaver.Text
