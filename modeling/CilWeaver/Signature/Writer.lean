import CilWeaver.Bytes.Compressed
import CilWeaver.Signature.Element
import CilWeaver.Table.CodedIndex

/-!
Writing signatures, the counterpart of reading them.
-/

namespace CilWeaver

namespace Signature

def encodeToken (t : Token) : Result Bytes := do
  let index ← CodedIndex.ofToken .typeDefOrRef t
  compressed (← index.encode .typeDefOrRef)

/-- A list behind its length. -/
def encodeCounted {α : Type} (encode : α → Result Bytes) (items : List α) : Result Bytes := do
  let count ← compressed items.length
  return count ++ (← items.mapM encode).flatten

def encodeShape (s : ArrayShape) : Result Bytes := do
  let rank ← compressed s.rank.toNat
  let sizes ← encodeCounted (fun n => compressed n.toNat) s.sizes
  let bounds ← encodeCounted (fun n => compressedInt n.toInt) s.lowerBounds
  return rank ++ sizes ++ bounds

def methodHeader (m : MethodSig) : UInt8 :=
  (m.convention &&& SignatureHeader.conventionMask)
    ||| (if m.hasThis then SignatureHeader.hasThis else 0)
    ||| (if m.explicitThis then SignatureHeader.explicitThis else 0)
    ||| (if 0 < m.typeParameters then SignatureHeader.generic else 0)

mutual

def encodeType : TypeSig → Result Bytes
  | .primitive kind => .ok [kind.code]
  | .pointer base => do return Element.pointer :: (← encodeType base)
  | .byReference base => do return Element.byReference :: (← encodeType base)
  | .pinned base => do return Element.pinned :: (← encodeType base)
  | .vector element => do return Element.vector :: (← encodeType element)
  | .classType type => do return Element.classType :: (← encodeToken type)
  | .valueType type => do return Element.valueType :: (← encodeToken type)
  | .typeParameter number => do return Element.typeParameter :: (← compressed number.toNat)
  | .methodParameter number => do return Element.methodParameter :: (← compressed number.toNat)
  | .array element shape => do
    let element ← encodeType element
    return Element.array :: element ++ (← encodeShape shape)
  | .generic base arguments => do
    let base ← encodeType base
    let count ← compressed arguments.length
    return Element.generic :: base ++ count ++ (← encodeTypes arguments)
  | .function method => do return Element.function :: (← encodeMethod method)
  | .modified required modifier base => do
    let element := if required then Element.requiredModifier else Element.optionalModifier
    let modifier ← encodeToken modifier
    return element :: modifier ++ (← encodeType base)

/-- Arguments beyond the declared parameters stand behind the sentinel. -/
def encodeMethod : MethodSig → Result Bytes
  | m@⟨_, _, _, typeParameters, returns, parameters, extra⟩ => do
    let generics ← if 0 < typeParameters then compressed typeParameters.toNat else .ok []
    let count ← compressed (parameters.length + extra.length)
    let returns ← encodeType returns
    let parameters ← encodeTypes parameters
    let mark := if extra.isEmpty then [] else [Element.sentinel]
    let extra ← encodeTypes extra
    return methodHeader m :: generics ++ count ++ returns ++ parameters ++ mark ++ extra

def encodeTypes : List TypeSig → Result Bytes
  | [] => .ok []
  | t :: ts => do
    let first ← encodeType t
    return first ++ (← encodeTypes ts)

end

def encodeField (type : TypeSig) : Result Bytes := do
  return SignatureHeader.field :: (← encodeType type)

def encodeLocals (types : List TypeSig) : Result Bytes := do
  let count ← compressed types.length
  return SignatureHeader.locals :: count ++ (← encodeTypes types)

end Signature

end CilWeaver
