import CilWeaver.Token

/-!
Types as signatures describe them, and the signatures of methods, fields and locals. Types are
compared by `TypeSig.same`, which decides equality.
-/

namespace CilWeaver

/-- Types that one byte of a signature stands for. -/
inductive Primitive where
  | void
  | boolean
  | char
  | int8
  | uint8
  | int16
  | uint16
  | int32
  | uint32
  | int64
  | uint64
  | float32
  | float64
  | string
  | object
  | typedReference
  | nativeInt
  | nativeUInt
deriving DecidableEq, Repr

/-- The shape of a general array: its rank, and the sizes and lower bounds of its first
    dimensions. -/
structure ArrayShape where
  rank : UInt32
  sizes : List UInt32
  lowerBounds : List Int32
deriving DecidableEq

mutual

inductive TypeSig where
  | primitive (kind : Primitive)
  | pointer (base : TypeSig)
  | byReference (base : TypeSig)
  | pinned (base : TypeSig)
  | vector (element : TypeSig)
  | classType (type : Token)
  | valueType (type : Token)
  | typeParameter (number : UInt32)
  | methodParameter (number : UInt32)
  | array (element : TypeSig) (shape : ArrayShape)
  | generic (base : TypeSig) (arguments : List TypeSig)
  | function (method : MethodSig)
  | modified (required : Bool) (modifier : Token) (base : TypeSig)

/-- The signature of a method. `variable` arguments stand behind the mark that ends the declared
    parameters. -/
structure MethodSig where
  hasThis : Bool
  explicitThis : Bool
  convention : UInt8
  typeParameters : UInt32
  returns : TypeSig
  parameters : List TypeSig
  extra : List TypeSig

end

namespace MethodSig

/-- The calling convention of methods with a variable argument list. -/
def variadic : UInt8 := 0x05

def isVariadic (m : MethodSig) : Bool := m.convention == variadic

end MethodSig

mutual

/-- Whether two types are the same. -/
def TypeSig.same : TypeSig → TypeSig → Bool
  | .primitive a, .primitive b => a == b
  | .pointer a, .pointer b => a.same b
  | .byReference a, .byReference b => a.same b
  | .pinned a, .pinned b => a.same b
  | .vector a, .vector b => a.same b
  | .classType a, .classType b => a == b
  | .valueType a, .valueType b => a == b
  | .typeParameter a, .typeParameter b => a == b
  | .methodParameter a, .methodParameter b => a == b
  | .array a s, .array b t => a.same b && s == t
  | .generic a as, .generic b bs => a.same b && TypeSig.sameAll as bs
  | .function a, .function b => a.same b
  | .modified r m a, .modified q n b => r == q && m == n && a.same b
  | _, _ => false

def MethodSig.same : MethodSig → MethodSig → Bool
  | ⟨this, explicit, convention, generics, returns, parameters, extra⟩, b =>
    this == b.hasThis && explicit == b.explicitThis && convention == b.convention
      && generics == b.typeParameters && returns.same b.returns
      && TypeSig.sameAll parameters b.parameters && TypeSig.sameAll extra b.extra

def TypeSig.sameAll : List TypeSig → List TypeSig → Bool
  | [], [] => true
  | a :: as, b :: bs => a.same b && TypeSig.sameAll as bs
  | _, _ => false

end

mutual

theorem TypeSig.same_iff : ∀ a b : TypeSig, a.same b = true ↔ a = b
  | .primitive a, b => by cases b <;> simp [TypeSig.same]
  | .pointer a, b => by cases b <;> simp [TypeSig.same, TypeSig.same_iff a]
  | .byReference a, b => by cases b <;> simp [TypeSig.same, TypeSig.same_iff a]
  | .pinned a, b => by cases b <;> simp [TypeSig.same, TypeSig.same_iff a]
  | .vector a, b => by cases b <;> simp [TypeSig.same, TypeSig.same_iff a]
  | .classType a, b => by cases b <;> simp [TypeSig.same]
  | .valueType a, b => by cases b <;> simp [TypeSig.same]
  | .typeParameter a, b => by cases b <;> simp [TypeSig.same]
  | .methodParameter a, b => by cases b <;> simp [TypeSig.same]
  | .array a s, b => by cases b <;> simp [TypeSig.same, TypeSig.same_iff a]
  | .generic a as, b => by
    cases b <;> simp [TypeSig.same, TypeSig.same_iff a, TypeSig.sameAll_iff as]
  | .function a, b => by cases b <;> simp [TypeSig.same, MethodSig.same_iff a]
  | .modified r m a, b => by
    cases b <;> simp [TypeSig.same, TypeSig.same_iff a, and_assoc]

theorem MethodSig.same_iff : ∀ a b : MethodSig, a.same b = true ↔ a = b
  | ⟨_, _, _, _, returns, parameters, extra⟩, b => by
    cases b
    simp [MethodSig.same, TypeSig.same_iff returns, TypeSig.sameAll_iff parameters,
      TypeSig.sameAll_iff extra, and_assoc]

theorem TypeSig.sameAll_iff : ∀ as bs : List TypeSig, TypeSig.sameAll as bs = true ↔ as = bs
  | [], bs => by cases bs <;> simp [TypeSig.sameAll]
  | a :: as, bs => by
    cases bs <;> simp [TypeSig.sameAll, TypeSig.same_iff a, TypeSig.sameAll_iff as]

end

instance : DecidableEq TypeSig := fun a b => decidable_of_iff _ (TypeSig.same_iff a b)

instance : DecidableEq MethodSig := fun a b => decidable_of_iff _ (MethodSig.same_iff a b)

instance : Inhabited TypeSig := ⟨.primitive .void⟩

instance : Inhabited MethodSig := ⟨⟨false, false, 0, 0, default, [], []⟩⟩

end CilWeaver
