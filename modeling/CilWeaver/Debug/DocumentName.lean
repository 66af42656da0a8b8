import CilWeaver.Heap.Blobs

/-!
Names of source documents, stored as a separator and the blobs of the parts between separators.
-/

namespace CilWeaver.DocumentName

/-- The parts of a text between the occurrences of `separator`; there is one part at least. -/
def splitParts (separator : Char) : List Char → List (List Char)
  | [] => [[]]
  | c :: text =>
    if c = separator then [] :: splitParts separator text
    else match splitParts separator text with
      | [] => [[c]]
      | part :: parts => (c :: part) :: parts

def joinParts (separator : List Char) (parts : List (List Char)) : List Char :=
  separator.intercalate parts

/-- A slash separates the parts, a backslash only in a name without slashes. -/
def separator? (name : List Char) : Option Char :=
  if name.contains '/' then some '/'
  else if name.contains '\\' then some '\\'
  else none

def readPart (heap : BlobHeap) : Reader (List Char) := do
  let part ← Reader.ofResult (heap.get (← Reader.compressed))
  match Utf8.decode? part with
  | some text => return text
  | none => Reader.malformed .documentNameNotUtf8

/-- Reads the name from its blob; a separator of zero stands for none. -/
def read (heap : BlobHeap) : Reader String := do
  let separator ← Reader.byte.orDefect .documentNameEmpty
  let parts ← Reader.untilEnd (readPart heap)
  let between := if separator == 0 then [] else [Char.ofNat separator.toNat]
  return String.ofList (joinParts between parts)

def parse (heap : BlobHeap) (data : Bytes) : Result String := (read heap).parse data

/-- Adds a part, and gives its index as it stands in the blob of the name. -/
def addPart (part : List Char) : EStateM Error BlobHeapBuilder Bytes := do
  match compressed (← BlobHeapBuilder.add (Utf8.encode part)) with
  | .ok index => return index
  | .error e => throw e

/-- Adds the parts of the name and the name itself. -/
def add (name : String) : EStateM Error BlobHeapBuilder Nat := do
  let text := name.toList
  match separator? text with
  | some separator =>
    let indices ← (splitParts separator text).mapM addPart
    BlobHeapBuilder.add (UInt8.ofNat separator.toNat :: indices.flatten)
  | none => BlobHeapBuilder.add (0 :: (← addPart text))

end CilWeaver.DocumentName
