import CilWeaver.Proofs.Spans
import CilWeaver.Signature.Reader

/-!
Which bytes spell a signature. There are more spellings than the one that is written: numbers may take more bytes than they
need, the flag of a generic method may stand in front of no type parameters, bits of a header that mean nothing may be set,
and a row may be larger than a token can hold.
-/

namespace CilWeaver

open Compressed

/-- The bytes name the row of a type. -/
def CodedIndex.Named (index : CodedIndex) (bytes : Bytes) : Prop :=
  ∃ number, Holds bytes number ∧ decode .typeDefOrRef number = .ok index ∧ index.row ≠ 0

/-- No more sizes or lower bounds than there are dimensions. -/
structure ArrayShape.Regular (s : ArrayShape) : Prop where
  rank : s.rank ≠ 0
  sizes : s.sizes.length ≤ s.rank.toNat
  lowerBounds : s.lowerBounds.length ≤ s.rank.toNat

inductive ArrayShape.Spelled (s : ArrayShape) : Bytes → Prop
  | intro {rank sizeCount sizes boundCount bounds} : s.Regular → Holds rank s.rank.toNat → Holds sizeCount s.sizes.length →
    Sequence (fun bytes (n : UInt32) => Holds bytes n.toNat) sizes s.sizes → Holds boundCount s.lowerBounds.length →
      Sequence (fun bytes (n : Int32) => HoldsInt bytes n.toInt) bounds s.lowerBounds →
        s.Spelled (rank ++ (sizeCount ++ (sizes ++ (boundCount ++ bounds))))

/-- Whether a type is one that type arguments may follow. -/
def TypeSig.isGenericBase : TypeSig → Bool
  | .classType _ | .valueType _ => true
  | _ => false

/-- The byte that begins a type. -/
def TypeSig.element : TypeSig → UInt8
  | .primitive kind => kind.code
  | .pointer _ => Element.pointer
  | .byReference _ => Element.byReference
  | .pinned _ => Element.pinned
  | .vector _ => Element.vector
  | .classType _ => Element.classType
  | .valueType _ => Element.valueType
  | .typeParameter _ => Element.typeParameter
  | .methodParameter _ => Element.methodParameter
  | .array _ _ => Element.array
  | .generic _ _ => Element.generic
  | .function _ => Element.function
  | .modified required _ _ => if required then Element.requiredModifier else Element.optionalModifier

theorem TypeSig.isGenericBase_eq (t : TypeSig) :
    t.isGenericBase = (t.element == Element.classType || t.element == Element.valueType) := by
  cases t with
  | primitive kind => cases kind <;> rfl
  | modified required => cases required <;> rfl
  | _ => rfl

theorem TypeSig.element_ne_sentinel (t : TypeSig) : (t.element == Element.sentinel) = false := by
  cases t with
  | primitive kind => cases kind <;> rfl
  | modified required => cases required <;> rfl
  | _ => rfl

/-- The mark in front of the arguments beyond the declared parameters, if there are any. -/
def MethodSig.mark (extra : List TypeSig) : Bytes := if extra.isEmpty then [] else [Element.sentinel]

/-- The flags of a method and its convention are those of the header. -/
structure MethodSig.Headed (m : MethodSig) (header : UInt8) : Prop where
  hasThis : m.hasThis = (header &&& SignatureHeader.hasThis != 0)
  explicitThis : m.explicitThis = (header &&& SignatureHeader.explicitThis != 0)
  convention : m.convention = header &&& SignatureHeader.conventionMask
  known : m.convention ≤ variadic

/-- The number of type parameters stands behind a header with the flag of generic methods. -/
def MethodSig.Counted (m : MethodSig) (header : UInt8) (bytes : Bytes) : Prop :=
  if header &&& SignatureHeader.generic = 0 then m.typeParameters = 0 ∧ bytes = [] else Holds bytes m.typeParameters.toNat

mutual

/-- The bytes spell a type, and name the rows of its tokens in this order. -/
inductive TypeSig.Spelled : TypeSig → Bytes → List CodedIndex → Prop
  | primitive (kind : Primitive) : TypeSig.Spelled (.primitive kind) [kind.code] []
  | pointer {t bytes names} : t.Spelled bytes names → TypeSig.Spelled (.pointer t) (Element.pointer :: bytes) names
  | byReference {t bytes names} : t.Spelled bytes names → TypeSig.Spelled (.byReference t) (Element.byReference :: bytes) names
  | pinned {t bytes names} : t.Spelled bytes names → TypeSig.Spelled (.pinned t) (Element.pinned :: bytes) names
  | vector {t bytes names} : t.Spelled bytes names → TypeSig.Spelled (.vector t) (Element.vector :: bytes) names
  | classType {index : CodedIndex} {bytes} : index.Named bytes →
    TypeSig.Spelled (.classType index.token) (Element.classType :: bytes) [index]
  | valueType {index : CodedIndex} {bytes} : index.Named bytes →
    TypeSig.Spelled (.valueType index.token) (Element.valueType :: bytes) [index]
  | typeParameter {number : UInt32} {bytes} : Holds bytes number.toNat →
    TypeSig.Spelled (.typeParameter number) (Element.typeParameter :: bytes) []
  | methodParameter {number : UInt32} {bytes} : Holds bytes number.toNat →
    TypeSig.Spelled (.methodParameter number) (Element.methodParameter :: bytes) []
  | array {t bytes names} {shape : ArrayShape} {others} : t.Spelled bytes names → shape.Spelled others →
    TypeSig.Spelled (.array t shape) (Element.array :: (bytes ++ others)) names
  | generic {t ts bytes names count others names'} : t.isGenericBase = true → ts ≠ [] → t.Spelled bytes names →
    Holds count ts.length → TypeSig.AllSpelled ts others names' →
      TypeSig.Spelled (.generic t ts) (Element.generic :: (bytes ++ (count ++ others))) (names ++ names')
  | function {m bytes names} : MethodSig.Spelled m bytes names →
    TypeSig.Spelled (.function m) (Element.function :: bytes) names
  | modified (required : Bool) {index : CodedIndex} {bytes t others names} : index.Named bytes → t.Spelled others names →
    TypeSig.Spelled (.modified required index.token t)
      ((if required then Element.requiredModifier else Element.optionalModifier) :: (bytes ++ others)) (index :: names)

inductive MethodSig.Spelled : MethodSig → Bytes → List CodedIndex → Prop
  | intro {m : MethodSig} {header generics count first names others names' more names''} : m.Headed header →
    m.Counted header generics → Holds count (m.parameters.length + m.extra.length) → m.returns.Spelled first names →
      TypeSig.AllSpelled m.parameters others names' → TypeSig.AllSpelled m.extra more names'' →
        MethodSig.Spelled m (header :: (generics ++ (count ++ (first ++ (others ++ (MethodSig.mark m.extra ++ more))))))
          (names ++ (names' ++ names''))

inductive TypeSig.AllSpelled : List TypeSig → Bytes → List CodedIndex → Prop
  | nil : TypeSig.AllSpelled [] [] []
  | cons {t ts bytes names others names'} : t.Spelled bytes names → TypeSig.AllSpelled ts others names' →
    TypeSig.AllSpelled (t :: ts) (bytes ++ others) (names ++ names')

end

mutual

/-- How many types a type nests, itself included. -/
def TypeSig.depth : TypeSig → Nat
  | .primitive _ | .classType _ | .valueType _ | .typeParameter _ | .methodParameter _ => 1
  | .pointer t | .byReference t | .pinned t | .vector t | .array t _ | .modified _ _ t => t.depth + 1
  | .generic t ts => max t.depth (TypeSig.depthOfAll ts) + 1
  | .function m => m.depth + 1

def MethodSig.depth : MethodSig → Nat
  | ⟨_, _, _, _, returns, parameters, extra⟩ =>
    max returns.depth (max (TypeSig.depthOfAll parameters) (TypeSig.depthOfAll extra))

def TypeSig.depthOfAll : List TypeSig → Nat
  | [] => 0
  | t :: ts => max t.depth (TypeSig.depthOfAll ts)

end

mutual

/-- The tokens of a type, in the order of its spelling. -/
def TypeSig.tokens : TypeSig → List Token
  | .primitive _ | .typeParameter _ | .methodParameter _ => []
  | .classType token | .valueType token => [token]
  | .pointer t | .byReference t | .pinned t | .vector t | .array t _ => t.tokens
  | .generic t ts => t.tokens ++ TypeSig.tokensOfAll ts
  | .function m => m.tokens
  | .modified _ modifier t => modifier :: t.tokens

def MethodSig.tokens : MethodSig → List Token
  | ⟨_, _, _, _, returns, parameters, extra⟩ =>
    returns.tokens ++ (TypeSig.tokensOfAll parameters ++ TypeSig.tokensOfAll extra)

def TypeSig.tokensOfAll : List TypeSig → List Token
  | [] => []
  | t :: ts => t.tokens ++ TypeSig.tokensOfAll ts

end

mutual

/-- The parts of a type are as the format has them. -/
def TypeSig.Regular : TypeSig → Prop
  | .primitive _ | .typeParameter _ | .methodParameter _ | .classType _ | .valueType _ => True
  | .pointer t | .byReference t | .pinned t | .vector t | .modified _ _ t => t.Regular
  | .array t shape => t.Regular ∧ shape.Regular
  | .generic t ts => t.isGenericBase = true ∧ ts ≠ [] ∧ t.Regular ∧ TypeSig.AllRegular ts
  | .function m => m.Regular

def MethodSig.Regular : MethodSig → Prop
  | ⟨_, _, convention, _, returns, parameters, extra⟩ =>
    convention ≤ MethodSig.variadic ∧ returns.Regular ∧ TypeSig.AllRegular parameters ∧ TypeSig.AllRegular extra

def TypeSig.AllRegular : List TypeSig → Prop
  | [] => True
  | t :: ts => t.Regular ∧ TypeSig.AllRegular ts

end

/-! What a spelling says about the signature -/

theorem TypeSig.Spelled.head? {t : TypeSig} {bytes : Bytes} {names : List CodedIndex} (h : t.Spelled bytes names) :
    bytes.head? = some t.element := by
  cases h <;> rfl

theorem TypeSig.Spelled.ne_nil {t : TypeSig} {bytes : Bytes} {names : List CodedIndex} (h : t.Spelled bytes names) : bytes ≠ [] := by
  cases h <;> exact List.cons_ne_nil _ _

/-- The token is the one of the row that was named. -/
structure Token.Names (token : Token) (index : CodedIndex) : Prop where
  token : token = index.token
  row : index.row ≠ 0

theorem CodedIndex.Named.names {index : CodedIndex} {bytes : Bytes} (h : index.Named bytes) : index.token.Names index := by
  rcases h with ⟨_, _, _, row⟩
  exact ⟨rfl, row⟩

mutual

theorem TypeSig.Spelled.names : ∀ {t : TypeSig} {bytes names}, t.Spelled bytes names → List.Forall₂ Token.Names t.tokens names
  | .primitive _, _, _, h => by
    cases h
    exact .nil
  | .pointer _, _, _, h => by
    cases h with
    | pointer base => exact base.names
  | .byReference _, _, _, h => by
    cases h with
    | byReference base => exact base.names
  | .pinned _, _, _, h => by
    cases h with
    | pinned base => exact base.names
  | .vector _, _, _, h => by
    cases h with
    | vector element => exact element.names
  | .classType _, _, _, h => by
    cases h with
    | classType named => exact .cons named.names .nil
  | .valueType _, _, _, h => by
    cases h with
    | valueType named => exact .cons named.names .nil
  | .typeParameter _, _, _, h => by
    cases h
    exact .nil
  | .methodParameter _, _, _, h => by
    cases h
    exact .nil
  | .array _ _, _, _, h => by
    cases h with
    | array element => exact element.names
  | .generic _ _, _, _, h => by
    cases h with
    | generic _ _ base _ arguments => exact List.rel_append base.names arguments.names
  | .function _, _, _, h => by
    cases h with
    | function method => exact method.names
  | .modified _ _ _, _, _, h => by
    cases h with
    | modified _ named base => exact .cons named.names base.names

theorem MethodSig.Spelled.names : ∀ {m : MethodSig} {bytes names}, m.Spelled bytes names → List.Forall₂ Token.Names m.tokens names
  | ⟨_, _, _, _, _, _, _⟩, _, _, h => by
    cases h with
    | intro _ _ _ returns parameters extra =>
      exact List.rel_append returns.names (List.rel_append parameters.names extra.names)

theorem TypeSig.AllSpelled.names : ∀ {ts : List TypeSig} {bytes names}, TypeSig.AllSpelled ts bytes names →
    List.Forall₂ Token.Names (TypeSig.tokensOfAll ts) names
  | [], _, _, h => by
    cases h
    exact .nil
  | _ :: _, _, _, h => by
    cases h with
    | cons first others => exact List.rel_append first.names others.names

end

mutual

theorem TypeSig.Spelled.regular : ∀ {t : TypeSig} {bytes names}, t.Spelled bytes names → t.Regular
  | .primitive _, _, _, _ => trivial
  | .pointer _, _, _, h => by
    cases h with
    | pointer base => exact base.regular
  | .byReference _, _, _, h => by
    cases h with
    | byReference base => exact base.regular
  | .pinned _, _, _, h => by
    cases h with
    | pinned base => exact base.regular
  | .vector _, _, _, h => by
    cases h with
    | vector element => exact element.regular
  | .classType _, _, _, _ => trivial
  | .valueType _, _, _, _ => trivial
  | .typeParameter _, _, _, _ => trivial
  | .methodParameter _, _, _, _ => trivial
  | .array _ _, _, _, h => by
    cases h with
    | array element shape =>
      cases shape with
      | intro regular => exact ⟨element.regular, regular⟩
  | .generic _ _, _, _, h => by
    cases h with
    | generic named nonempty base _ arguments => exact ⟨named, nonempty, base.regular, arguments.regular⟩
  | .function _, _, _, h => by
    cases h with
    | function method => exact method.regular
  | .modified _ _ _, _, _, h => by
    cases h with
    | modified _ _ base => exact base.regular

theorem MethodSig.Spelled.regular : ∀ {m : MethodSig} {bytes names}, m.Spelled bytes names → m.Regular
  | ⟨_, _, _, _, _, _, _⟩, _, _, h => by
    cases h with
    | intro headed _ _ returns parameters extra => exact ⟨headed.known, returns.regular, parameters.regular, extra.regular⟩

theorem TypeSig.AllSpelled.regular : ∀ {ts : List TypeSig} {bytes names}, TypeSig.AllSpelled ts bytes names →
    TypeSig.AllRegular ts
  | [], _, _, _ => trivial
  | _ :: _, _, _, h => by
    cases h with
    | cons first others => exact ⟨first.regular, others.regular⟩

end

end CilWeaver
