import CilWeaver.Text.Blank
import CilWeaver.Text.Joining

/-!
How many columns a text takes in print, and tables in plain text. What a character takes can hang on the ones after it,
so a text is measured from its end to its start. The columns of a table stand two blanks apart, and no line ends in blanks.
-/

namespace CilWeaver.Text

/-- What is known of the text to the right of a place: the character there and the selectors in
front of it, each of which waits for the character that it shapes. -/
structure RightSide where
  follower : Follower := .other
  /-- The character shall be drawn as a picture. -/
  asPicture : Bool := false
  /-- The character shall be drawn as a sign in the text. -/
  asSign : Bool := false
  /-- The character shall be drawn as wide as an ideograph. -/
  asWide : Bool := false
deriving DecidableEq

namespace RightSide

def addPictureSelector (right : RightSide) : RightSide :=
  if right.follower.isLetter || right.follower.isJoined then { right with asPicture := true }
  else { asPicture := true }

def addSignSelector (right : RightSide) : RightSide :=
  if right.follower.isLetter then { right with asSign := true } else { asSign := true }

def addWideSelector (right : RightSide) : RightSide :=
  if right.follower.isLetter then { right with asWide := true } else { asWide := true }

/-- The same place when the character there has no shape of a picture. -/
def dropPictureSelector (right : RightSide) : RightSide :=
  if !right.asPicture then right
  else if right.follower.isLetter then { right with asPicture := false }
  else {}

/-- The same place when the character there has neither of the other two shapes: the selector
nearer to the character has no effect. -/
def dropSelector (right : RightSide) : RightSide :=
  if right.asSign then
    if right.follower.isLetter then { right with asSign := false } else {}
  else if right.asWide then
    if right.follower.isLetter then { right with asWide := false } else {}
  else right

end RightSide

/-- The quotation marks with a wide shape. -/
def isQuotationMark (n : Nat) : Bool := n = 0x2018 || n = 0x2019 || n = 0x201C || n = 0x201D

/-- What a character does that is no selector and is not shaped by one. -/
def measureShapeless (n : Nat) (right : RightSide) : Int × RightSide :=
  if right.follower.skipsHidden && n = zeroWidthJoiner then
    (0, { right with follower := right.follower.withJoiner })
  else if right.follower.skipsHidden && isHiddenMark n then (0, right)
  else
    match if right.asWide then none else right.follower.join? n with
    | some (columns, follower) => (columns, { follower })
    | none => (columnsAlone n, { follower := .of n })

/-- The columns that a character adds to those of the text to its right, and what the two are to the
character before them. A line feed takes one column, also after a carriage return. -/
def measure (c : Char) (right : RightSide) : Int × RightSide :=
  let n := c.toNat
  if right.asPicture && hasTwoShapes n then
    (if right.follower.isJoined then 0 else 2, { follower := .picture })
  else
    let right := right.dropPictureSelector
    if n ≤ 0xA0 then
      (if c = '\r' && right = { follower := .lineFeed } then 0 else 1, { follower := .of n })
    else if n = 0xFE0F then (0, right.addPictureSelector)
    else if n = 0xFE0E then (0, right.addSignSelector)
    else if n = 0xFE01 then (0, right.addWideSelector)
    else if right.asSign && shrinksToSign n then (1, {})
    else if !right.asSign && right.asWide && isQuotationMark n then (2, {})
    else measureShapeless n right.dropSelector

def displayWidth (text : String) : Nat :=
  let total := text.toList.foldr
    (fun c (total, right) => let (columns, next) := measure c right; (total + columns, next))
    ((0 : Int), ({} : RightSide))
  total.1.toNat

def cellLines (cell : String) : List String := cell.splitOn "\n"

def cellWidth (cell : String) : Nat := ((cellLines cell).map displayWidth).foldl max 0

/-- The width of each column of rows that have the same number of cells. -/
def columnWidths : List (List String) → List Nat
  | [] => []
  | [row] => row.map cellWidth
  | row :: rows => List.zipWith max (row.map cellWidth) (columnWidths rows)

def fillTo (width : Nat) (text : String) : String :=
  text ++ String.ofList (List.replicate (width - displayWidth text) ' ')

def trimEnd (text : String) : String :=
  String.ofList ((text.toList.reverse.dropWhile isBlank).reverse)

/-- The lines of one row: as many as the cell with the most lines has. -/
def rowLines (widths : List Nat) (row : List String) : List String :=
  let height := (row.map fun cell => (cellLines cell).length).foldl max 0
  (List.range height).map fun k =>
    let part (width : Nat) (cell : String) : String := fillTo width ((cellLines cell)[k]?.getD "")
    trimEnd ("  ".intercalate (List.zipWith part widths row))

def tableLines (rows : List (List String)) : List String :=
  rows.flatMap (rowLines (columnWidths rows))

end CilWeaver.Text
