import CilWeaver.Signature.Reader
import CilWeaver.Signature.Text
import CilWeaver.Proofs.StrictParsers

/-!
Strict readers of signatures. The depth of nested types is counted up in front of a type and down behind it.
-/

namespace CilWeaver

open Partly (Gives minus)
open StrictReader (Agrees AgreesAt)

namespace SignatureReader

def strictTypeToken : StrictReader Token := do
  match CodedIndex.decode .typeDefOrRef (← StrictReader.compressed) with
  | .error e => throw e
  | .ok index =>
    if index.isNull then StrictReader.malformed .nullTypeToken
    return index.token

def strictArrayShape : StrictReader ArrayShape := do
  let rank ← StrictReader.compressed
  if rank == 0 then StrictReader.malformed .arrayRank
  let sizeCount ← StrictReader.compressed
  if rank < sizeCount then StrictReader.malformed (.arraySizes sizeCount rank)
  let sizes ← StrictReader.times sizeCount StrictReader.compressed
  let boundCount ← StrictReader.compressed
  if rank < boundCount then StrictReader.malformed (.arrayBounds boundCount rank)
  let bounds ← StrictReader.times boundCount StrictReader.compressedInt
  return ⟨.ofNat rank, sizes.map .ofNat, bounds.map .ofInt⟩

def strictParameters (type : StrictReader TypeSig) (marked : Bool) (declared extra : List TypeSig) :
    (count : Nat) → StrictReader (List TypeSig × List TypeSig)
  | 0 => return (declared.reverse, extra.reverse)
  | count + 1 => do
    let mark ← if marked then pure false else (· == Element.sentinel) <$> StrictReader.peek
    if mark then StrictReader.skip 1
    let t ← type
    if marked || mark then strictParameters type true declared (t :: extra) count
    else strictParameters type false (t :: declared) extra count

def strictMethodWith (type : StrictReader TypeSig) : StrictReader MethodSig := do
  let header ← StrictReader.byte
  let convention := header &&& SignatureHeader.conventionMask
  if MethodSig.variadic < convention then StrictReader.malformed (.methodHeader header)
  let typeParameters ←
    if header &&& SignatureHeader.generic != 0 then StrictReader.compressed else pure 0
  let count ← StrictReader.compressed
  let returns ← type
  let (declared, extra) ← strictParameters type false [] [] count
  return {
    hasThis := header &&& SignatureHeader.hasThis != 0
    explicitThis := header &&& SignatureHeader.explicitThis != 0
    convention
    typeParameters := .ofNat typeParameters
    returns
    parameters := declared
    extra }

/-- Reads a type whose nested types are read by `type`. -/
def strictTypeWith (type : StrictReader TypeSig) : StrictReader TypeSig := do
  let element ← StrictReader.byte
  if let some kind := Primitive.ofCode? element then return .primitive kind
  else if element == Element.pointer then return .pointer (← type)
  else if element == Element.byReference then return .byReference (← type)
  else if element == Element.pinned then return .pinned (← type)
  else if element == Element.vector then return .vector (← type)
  else if element == Element.classType then return .classType (← strictTypeToken)
  else if element == Element.valueType then return .valueType (← strictTypeToken)
  else if element == Element.typeParameter then return .typeParameter (.ofNat (← StrictReader.compressed))
  else if element == Element.methodParameter then return .methodParameter (.ofNat (← StrictReader.compressed))
  else if element == Element.array then
    let base ← type
    return .array base (← strictArrayShape)
  else if element == Element.generic then
    let next ← StrictReader.peek
    if next != Element.classType && next != Element.valueType then StrictReader.malformed (.genericBase next)
    let base ← type
    let count ← StrictReader.compressed
    if count == 0 then StrictReader.malformed .genericWithoutArguments
    return .generic base (← StrictReader.times count type)
  else if element == Element.function then return .function (← strictMethodWith type)
  else if element == Element.requiredModifier || element == Element.optionalModifier then
    let modifier ← strictTypeToken
    return .modified (element == Element.requiredModifier) modifier (← type)
  else StrictReader.malformed (.elementType element)

/-- Reads a type that is nested in as many types as `depth` says. -/
def strictTypeAt (depth : Nat) : StrictReader TypeSig :=
  if maxTypeNesting < depth + 1 then StrictReader.malformed (.signatureTooDeep maxTypeNesting)
  else do
    let t ← strictTypeWith (strictTypeAt (depth + 1))
    let _ ← StrictReader.need (minus (depth + 1) 1)
    return t
termination_by maxTypeNesting - depth

def strictMethod : StrictReader MethodSig := strictMethodWith (strictTypeAt 0)

def strictField : StrictReader TypeSig := do
  let header ← StrictReader.byte
  if header != SignatureHeader.field then StrictReader.malformed (.fieldHeader header)
  strictTypeAt 0

def strictLocals : StrictReader (List TypeSig) := do
  let header ← StrictReader.byte
  if header != SignatureHeader.locals then StrictReader.malformed (.localsHeader header)
  let count ← StrictReader.compressed
  if maxLocals < count then StrictReader.malformed (.tooManyLocals count)
  StrictReader.times count (strictTypeAt 0)

theorem agrees_typeToken : Agrees strictTypeToken typeToken := by
  refine Agrees.compressed.bind fun value => ?_
  cases CodedIndex.decode .typeDefOrRef value with
  | error e => exact .throw _
  | ok index => exact .check fun _ => .pure _

theorem agrees_arrayShape : Agrees strictArrayShape arrayShape := by
  refine Agrees.compressed.bind fun _ => .check fun _ => Agrees.compressed.bind fun _ => .check fun _ => ?_
  refine (Agrees.compressed.times _).bind fun _ => Agrees.compressed.bind fun _ => .check fun _ => ?_
  exact (Agrees.compressedInt.times _).bind fun _ => .pure _

variable {x : StrictReader TypeSig} {r : Reader TypeSig}

theorem agrees_parameters (type : Agrees x r) (marked : Bool) (declared extra : List TypeSig) (count : Nat) :
    Agrees (strictParameters x marked declared extra count) (parameters r marked declared extra count) := by
  induction count generalizing marked declared extra with
  | zero => exact .pure _
  | succ count ih =>
    refine .ite (fun _ => (Agrees.pure _).bind fun mark => ?_) fun _ => (Agrees.peek.map _).bind fun mark => ?_
    all_goals
      refine Agrees.ite (fun _ => (Agrees.skip 1).bind fun _ => ?_) fun _ => ?_
      all_goals exact type.bind fun t => .ite (fun _ => ih _ _ _) fun _ => ih _ _ _

theorem agrees_methodWith (type : Agrees x r) : Agrees (strictMethodWith x) (methodWith r) := by
  refine Agrees.byte.bind fun header => .check fun _ => .ite (fun _ => Agrees.compressed.bind fun _ => ?_)
    fun _ => (Agrees.pure 0).bind fun _ => ?_
  all_goals
    exact Agrees.compressed.bind fun _ => type.bind fun _ => (agrees_parameters type _ _ _ _).bind fun _ => .pure _

/-- A type that holds one more nested type than `r` reads. -/
theorem agrees_typeWith {budget : Nat} (type : Agrees x (typeWithin budget)) :
    Agrees (strictTypeWith x) (typeWithin (budget + 1)) := by
  refine Agrees.byte.bind fun element => ?_
  cases Primitive.ofCode? element with
  | some kind => exact .pure _
  | none =>
    refine .ite (fun _ => type.bind fun _ => .pure _) fun _ => .ite (fun _ => type.bind fun _ => .pure _) fun _ => ?_
    refine .ite (fun _ => type.bind fun _ => .pure _) fun _ => .ite (fun _ => type.bind fun _ => .pure _) fun _ => ?_
    refine .ite (fun _ => agrees_typeToken.bind fun _ => .pure _) fun _ => ?_
    refine .ite (fun _ => agrees_typeToken.bind fun _ => .pure _) fun _ => ?_
    refine .ite (fun _ => Agrees.compressed.bind fun _ => .pure _) fun _ => ?_
    refine .ite (fun _ => Agrees.compressed.bind fun _ => .pure _) fun _ => ?_
    refine .ite (fun _ => type.bind fun _ => agrees_arrayShape.bind fun _ => .pure _) fun _ => .ite (fun _ => ?_) fun _ => ?_
    · refine Agrees.peek.bind fun _ => .check fun _ => type.bind fun _ => Agrees.compressed.bind fun _ => .check fun _ => ?_
      exact (type.times _).bind fun _ => .pure _
    · refine .ite (fun _ => (agrees_methodWith type).bind fun _ => .pure _) fun _ => .ite (fun _ => ?_) fun _ => .malformed _
      exact agrees_typeToken.bind fun _ => type.bind fun _ => .pure _

/-- What was counted up is counted down. -/
theorem agrees_typeAt {budget depth : Nat} (total : depth + budget = maxTypeNesting) :
    Agrees (strictTypeAt depth) (typeWithin budget) := by
  induction budget generalizing depth with
  | zero =>
    rw [strictTypeAt, if_pos (by omega)]
    exact .malformed _
  | succ budget ih =>
    rw [strictTypeAt, if_neg (by omega)]
    have type := agrees_typeWith (@ih (depth + 1) (by omega))
    have down (t : TypeSig) : Agrees (do let _ ← StrictReader.need (minus (depth + 1) 1); return t) (Pure.pure t) :=
      .need (Partly.minus_of_le (Nat.le_add_left 1 depth)) (.pure t)
    have counted := type.bind down
    rw [bind_pure] at counted
    exact counted

theorem agrees_type : Agrees (strictTypeAt 0) type := agrees_typeAt (Nat.zero_add _)

theorem agrees_method : Agrees strictMethod method := agrees_methodWith agrees_type

theorem agrees_field : Agrees strictField field := Agrees.byte.bind fun _ => .check fun _ => agrees_type

theorem agrees_locals : Agrees strictLocals locals :=
  Agrees.byte.bind fun _ => .check fun _ => Agrees.compressed.bind fun _ => .check fun _ => agrees_type.times _

end SignatureReader

/-! Rendering asks for the names of types, each of which may fail. -/

section Render

variable {ε ε' : Type} (name : Token → Except ε String) (g : ε → ε')

theorem Outcome.bind_pure_mapError {α β : Type} (x : Except ε α) (f : α → β) :
    (x.mapError g >>= fun a => (pure (f a) : Except ε' β)) = (x >>= fun a => (pure (f a) : Except ε β)).mapError g := by
  cases x <;> rfl

mutual

theorem TypeSig.render_mapError : ∀ t : TypeSig, t.render (fun token => (name token).mapError g) = (t.render name).mapError g
  | .primitive _ => rfl
  | .pointer base => by
    rw [TypeSig.render, TypeSig.render, TypeSig.render_mapError base]
    exact Outcome.bind_pure_mapError g _ _
  | .byReference base => by
    rw [TypeSig.render, TypeSig.render, TypeSig.render_mapError base]
    exact Outcome.bind_pure_mapError g _ _
  | .pinned base => by
    rw [TypeSig.render, TypeSig.render, TypeSig.render_mapError base]
    exact Outcome.bind_pure_mapError g _ _
  | .vector element => by
    rw [TypeSig.render, TypeSig.render, TypeSig.render_mapError element]
    exact Outcome.bind_pure_mapError g _ _
  | .array element shape => by
    rw [TypeSig.render, TypeSig.render, TypeSig.render_mapError element]
    exact Outcome.bind_pure_mapError g _ _
  | .classType _ => rfl
  | .valueType _ => rfl
  | .generic base arguments => by
    rw [TypeSig.render, TypeSig.render, TypeSig.renderAll_mapError arguments, TypeSig.render_mapError base]
    cases TypeSig.renderAll name arguments with
    | error e => rfl
    | ok texts => exact Outcome.bind_pure_mapError g _ _
  | .typeParameter _ => rfl
  | .methodParameter _ => rfl
  | .function method => by
    rw [TypeSig.render, TypeSig.render, MethodSig.render_mapError method]
    exact Outcome.bind_pure_mapError g _ _
  | .modified required modifier base => by
    rw [TypeSig.render, TypeSig.render, TypeSig.render_mapError base]
    cases TypeSig.render name base with
    | error e => rfl
    | ok text => exact Outcome.bind_pure_mapError g _ _

theorem MethodSig.render_mapError : ∀ m : MethodSig,
    m.render (fun token => (name token).mapError g) = (m.render name).mapError g
  | ⟨_, _, _, _, returns, parameters, _⟩ => by
    rw [MethodSig.render, MethodSig.render, TypeSig.render_mapError returns, TypeSig.renderAll_mapError parameters]
    cases TypeSig.render name returns with
    | error e => rfl
    | ok text => exact Outcome.bind_pure_mapError g _ _

theorem TypeSig.renderAll_mapError : ∀ ts : List TypeSig,
    TypeSig.renderAll (fun token => (name token).mapError g) ts = (TypeSig.renderAll name ts).mapError g
  | [] => rfl
  | t :: ts => by
    rw [TypeSig.renderAll, TypeSig.renderAll, TypeSig.render_mapError t, TypeSig.renderAll_mapError ts]
    cases TypeSig.render name t with
    | error e => rfl
    | ok text => exact Outcome.bind_pure_mapError g _ _

end

end Render

end CilWeaver
