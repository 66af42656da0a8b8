import CilWeaver.Bytes.Compressed
import CilWeaver.Signature.Element
import CilWeaver.Table.CodedIndex

/-!
Reading signatures. Types are read with a budget of nested types, which bounds the recursion.
-/

namespace CilWeaver

namespace SignatureReader

def typeToken : Reader Token := do
  match CodedIndex.decode .typeDefOrRef (← Reader.compressed) with
  | .error e => throw e
  | .ok index =>
    if index.isNull then Reader.malformed .nullTypeToken
    return index.token

def arrayShape : Reader ArrayShape := do
  let rank ← Reader.compressed
  if rank == 0 then Reader.malformed .arrayRank
  let sizeCount ← Reader.compressed
  if rank < sizeCount then Reader.malformed (.arraySizes sizeCount rank)
  let sizes ← Reader.times sizeCount Reader.compressed
  let boundCount ← Reader.compressed
  if rank < boundCount then Reader.malformed (.arrayBounds boundCount rank)
  let bounds ← Reader.times boundCount Reader.compressedInt
  return ⟨.ofNat rank, sizes.map .ofNat, bounds.map .ofInt⟩

/-- Reads `count` arguments. Those before the mark are the declared parameters; both lists hold what
    was read so far, last one first. -/
def parameters (type : Reader TypeSig) (marked : Bool) (declared extra : List TypeSig) :
    (count : Nat) → Reader (List TypeSig × List TypeSig)
  | 0 => return (declared.reverse, extra.reverse)
  | count + 1 => do
    let mark ← if marked then pure false else (· == Element.sentinel) <$> Reader.peek
    if mark then Reader.skip 1
    let t ← type
    if marked || mark then parameters type true declared (t :: extra) count
    else parameters type false (t :: declared) extra count

/-- Reads a method signature whose types are read by `type`. -/
def methodWith (type : Reader TypeSig) : Reader MethodSig := do
  let header ← Reader.byte
  let convention := header &&& SignatureHeader.conventionMask
  if MethodSig.variadic < convention then Reader.malformed (.methodHeader header)
  let typeParameters ←
    if header &&& SignatureHeader.generic != 0 then Reader.compressed else pure 0
  let count ← Reader.compressed
  let returns ← type
  let (declared, extra) ← parameters type false [] [] count
  return {
    hasThis := header &&& SignatureHeader.hasThis != 0
    explicitThis := header &&& SignatureHeader.explicitThis != 0
    convention
    typeParameters := .ofNat typeParameters
    returns
    parameters := declared
    extra }

/-- Reads a type that holds at most `budget` nested types, itself included. -/
def typeWithin : (budget : Nat) → Reader TypeSig
  | 0 => Reader.malformed (.signatureTooDeep maxTypeNesting)
  | budget + 1 => do
    let element ← Reader.byte
    if let some kind := Primitive.ofCode? element then return .primitive kind
    else if element == Element.pointer then return .pointer (← typeWithin budget)
    else if element == Element.byReference then return .byReference (← typeWithin budget)
    else if element == Element.pinned then return .pinned (← typeWithin budget)
    else if element == Element.vector then return .vector (← typeWithin budget)
    else if element == Element.classType then return .classType (← typeToken)
    else if element == Element.valueType then return .valueType (← typeToken)
    else if element == Element.typeParameter then
      return .typeParameter (.ofNat (← Reader.compressed))
    else if element == Element.methodParameter then
      return .methodParameter (.ofNat (← Reader.compressed))
    else if element == Element.array then
      let base ← typeWithin budget
      return .array base (← arrayShape)
    else if element == Element.generic then
      let next ← Reader.peek
      if next != Element.classType && next != Element.valueType then
        Reader.malformed (.genericBase next)
      let base ← typeWithin budget
      let count ← Reader.compressed
      if count == 0 then Reader.malformed .genericWithoutArguments
      return .generic base (← Reader.times count (typeWithin budget))
    else if element == Element.function then return .function (← methodWith (typeWithin budget))
    else if element == Element.requiredModifier || element == Element.optionalModifier then
      let modifier ← typeToken
      return .modified (element == Element.requiredModifier) modifier (← typeWithin budget)
    else Reader.malformed (.elementType element)

def type : Reader TypeSig := typeWithin maxTypeNesting

def method : Reader MethodSig := methodWith type

/-- The signature of a field is the type behind its header. -/
def field : Reader TypeSig := do
  let header ← Reader.byte
  if header != SignatureHeader.field then Reader.malformed (.fieldHeader header)
  type

/-- The types of the locals of a method. -/
def locals : Reader (List TypeSig) := do
  let header ← Reader.byte
  if header != SignatureHeader.locals then Reader.malformed (.localsHeader header)
  let count ← Reader.compressed
  if maxLocals < count then Reader.malformed (.tooManyLocals count)
  Reader.times count type

end SignatureReader

namespace Signature

def parseMethod (blob : Bytes) : Result MethodSig := SignatureReader.method.parse blob

def parseField (blob : Bytes) : Result TypeSig := SignatureReader.field.parse blob

def parseLocals (blob : Bytes) : Result (List TypeSig) := SignatureReader.locals.parse blob

def isField (blob : Bytes) : Bool := blob.head? == some SignatureHeader.field

end Signature

end CilWeaver
