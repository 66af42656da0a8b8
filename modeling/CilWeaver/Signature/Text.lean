import CilWeaver.Signature.Basic

/-!
Two texts of signatures: the normalized one that tells the overloads of a member apart, in which a
type is known by its name, and the detailed one that messages carry.
-/

namespace CilWeaver

/-- The word that stands for the type in a normalized signature. -/
def Primitive.word : Primitive → String
  | void => "void"
  | boolean => "bool"
  | char => "char"
  | int8 => "int8"
  | uint8 => "uint8"
  | int16 => "int16"
  | uint16 => "uint16"
  | int32 => "int32"
  | uint32 => "uint32"
  | int64 => "int64"
  | uint64 => "uint64"
  | float32 => "float32"
  | float64 => "float64"
  | string => "string"
  | object => "object"
  | typedReference => "typedref"
  | nativeInt => "native int"
  | nativeUInt => "native uint"

def Primitive.detail : Primitive → String
  | void => "Void"
  | boolean => "Boolean"
  | char => "Char"
  | int8 => "I1"
  | uint8 => "U1"
  | int16 => "I2"
  | uint16 => "U2"
  | int32 => "I4"
  | uint32 => "U4"
  | int64 => "I8"
  | uint64 => "U8"
  | float32 => "R4"
  | float64 => "R8"
  | string => "String"
  | object => "Object"
  | typedReference => "TypedByRef"
  | nativeInt => "I"
  | nativeUInt => "U"

def commaSeparated (items : List String) : String := ",".intercalate items

section Render

variable {ε : Type} (name : Token → Except ε String)

mutual

/-- The normalized text of a type. Type arguments are named before the generic type, a modifier
    after the type it modifies; the first name that is missing is the failure. -/
def TypeSig.render : TypeSig → Except ε String
  | .primitive kind => .ok kind.word
  | .pointer base => do return (← base.render) ++ "*"
  | .byReference base => do return (← base.render) ++ "&"
  | .pinned base => do return (← base.render) ++ " pinned"
  | .vector element => do return (← element.render) ++ "[]"
  | .array element shape => do
    let commas := String.ofList (List.replicate (shape.rank.toNat - 1) ',')
    return (← element.render) ++ "[" ++ commas ++ "]"
  | .classType type => name type
  | .valueType type => name type
  | .generic base arguments => do
    let arguments ← TypeSig.renderAll arguments
    return (← base.render) ++ "<" ++ commaSeparated arguments ++ ">"
  | .typeParameter number => .ok ("!" ++ Text.decimal number.toNat)
  | .methodParameter number => .ok ("!!" ++ Text.decimal number.toNat)
  | .function method => do return "method " ++ (← method.render)
  | .modified required modifier base => do
    let base ← base.render
    let modifier ← name modifier
    return base ++ (if required then " modreq(" else " modopt(") ++ modifier ++ ")"

/-- The normalized text of a method signature. -/
def MethodSig.render : MethodSig → Except ε String
  | ⟨hasThis, explicitThis, convention, typeParameters, returns, parameters, _⟩ => do
    let returns ← returns.render
    let parameters ← TypeSig.renderAll parameters
    return (if hasThis then "instance " else "")
      ++ (if explicitThis then "explicit " else "")
      ++ (if convention == MethodSig.variadic then "vararg " else "")
      ++ returns
      ++ (if 0 < typeParameters then "<" ++ Text.decimal typeParameters.toNat ++ ">" else "")
      ++ "(" ++ commaSeparated parameters ++ ")"

def TypeSig.renderAll : List TypeSig → Except ε (List String)
  | [] => .ok []
  | t :: ts => do
    let first ← t.render
    let others ← TypeSig.renderAll ts
    return first :: others

end

end Render

def bracketed (items : List String) : String := "[" ++ ", ".intercalate items ++ "]"

def boolText (b : Bool) : String := if b then "true" else "false"

def ArrayShape.detail (s : ArrayShape) : String :=
  let sizes := bracketed (s.sizes.map fun n => Text.decimal n.toNat)
  let bounds := bracketed (s.lowerBounds.map fun n => Text.integer n.toInt)
  s!"ArrayShape \x7b rank: {Text.decimal s.rank.toNat}, sizes: {sizes}, lower_bounds: {bounds} \x7d"

mutual

/-- The detailed text of a type. -/
def TypeSig.detail : TypeSig → String
  | .primitive kind => kind.detail
  | .pointer base => "Ptr(" ++ base.detail ++ ")"
  | .byReference base => "ByRef(" ++ base.detail ++ ")"
  | .pinned base => "Pinned(" ++ base.detail ++ ")"
  | .vector element => "SzArray(" ++ element.detail ++ ")"
  | .array element shape => "Array(" ++ element.detail ++ ", " ++ shape.detail ++ ")"
  | .classType type => "Class(" ++ type.detail ++ ")"
  | .valueType type => "ValueType(" ++ type.detail ++ ")"
  | .generic base arguments =>
    "GenericInst(" ++ base.detail ++ ", " ++ bracketed (TypeSig.detailAll arguments) ++ ")"
  | .typeParameter number => "GenericParamType(" ++ Text.decimal number.toNat ++ ")"
  | .methodParameter number => "GenericParamMethod(" ++ Text.decimal number.toNat ++ ")"
  | .function method => "FnPtr(" ++ method.detail ++ ")"
  | .modified required modifier base =>
    s!"Modified(CustomModifier \x7b is_required: {boolText required}, modifier_type: "
      ++ modifier.detail ++ " \x7d, " ++ base.detail ++ ")"

def MethodSig.detail : MethodSig → String
  | ⟨hasThis, explicitThis, convention, typeParameters, returns, parameters, extra⟩ =>
    s!"SignatureMethod \x7b has_this: {boolText hasThis}, explicit_this: {boolText explicitThis}"
      ++ s!", calling_convention: {Text.decimal convention.toNat}"
      ++ s!", generic_param_count: {Text.decimal typeParameters.toNat}"
      ++ ", return_type: " ++ returns.detail
      ++ ", params: " ++ bracketed (TypeSig.detailAll parameters)
      ++ ", varargs: " ++ bracketed (TypeSig.detailAll extra) ++ " \x7d"

def TypeSig.detailAll : List TypeSig → List String
  | [] => []
  | t :: ts => t.detail :: TypeSig.detailAll ts

end

end CilWeaver
