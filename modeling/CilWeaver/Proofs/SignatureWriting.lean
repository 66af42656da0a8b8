import CilWeaver.Proofs.ReadRows
import CilWeaver.Proofs.SignatureGrammar
import CilWeaver.Signature.Writer

/-!
What is written for a signature spells it, if the signature is regular and its tokens have rows. What spells a signature
in any other way is written in no more bytes. A row that no token can hold is replaced by its lowest bits, and a row of
which all these bits are zero leaves three bytes.
-/

namespace CilWeaver

open Compressed Outcome

/-- What is written leaves `spare` bytes of `size`. -/
def Outcome.Leaves (written : Result Bytes) (spare size : Nat) : Prop := ∃ bytes, written = .ok bytes ∧ bytes.length + spare ≤ size

theorem Outcome.Leaves.cons {written : Result Bytes} {spare size : Nat} (b : UInt8) (h : Leaves written spare size) :
    Leaves (do return b :: (← written)) spare (size + 1) := by
  rcases h with ⟨bytes, rfl, room⟩
  exact ⟨b :: bytes, rfl, by rw [List.length_cons]; omega⟩

theorem Outcome.cons_eq_ok {written : Result Bytes} {b : UInt8} {bytes : Bytes} :
    (do return b :: (← written)) = .ok bytes ↔ ∃ own, written = .ok own ∧ bytes = b :: own := by
  rw [bind_eq_ok]
  simp only [pure_eq_ok, @eq_comm Bytes bytes]

theorem Outcome.Within.leaves {written : Result Bytes} {size : Nat} (h : Within written size) : Leaves written 0 size := h

section Lists

variable {α : Type} {encode : α → Result Bytes} {items : List α}

theorem sequence_of_mapM {parts : List Bytes} (h : items.mapM encode = .ok parts) :
    Sequence (fun bytes a => encode a = .ok bytes) parts.flatten items := by
  induction mapM_eq_ok.mp h with
  | nil => exact .nil
  | cons first others ih => exact .cons first (ih (mapM_eq_ok.mpr others))

theorem within_mapM {p : Bytes → α → Prop} {bytes : Bytes} (h : Sequence p bytes items)
    (each : ∀ bytes a, p bytes a → Within (encode a) bytes.length) :
    ∃ parts, items.mapM encode = .ok parts ∧ parts.flatten.length ≤ bytes.length := by
  induction h with
  | nil => exact ⟨[], rfl, Nat.le_refl 0⟩
  | cons first others ih =>
    rcases each _ _ first with ⟨front, hfront, short⟩
    rcases ih with ⟨parts, hparts, short'⟩
    refine ⟨front :: parts, ?_, ?_⟩
    · rw [List.mapM_cons, hfront, ok_bind, hparts]
      rfl
    · rw [List.flatten_cons, List.length_append, List.length_append]
      omega

end Lists

/-! Names -/

/-- All the bits of a row that a token holds are zero. -/
def CodedIndex.isLost (index : CodedIndex) : Bool := index.token.row == 0

/-- The bytes that lost rows leave. -/
def CodedIndex.spare (names : List CodedIndex) : Nat := 3 * names.countP isLost

theorem CodedIndex.spare_append (front back : List CodedIndex) : spare (front ++ back) = spare front + spare back := by
  unfold spare
  rw [List.countP_append, Nat.mul_add]

theorem CodedIndex.spare_singleton (index : CodedIndex) : spare [index] = if index.isLost then 3 else 0 := by
  unfold spare
  rw [List.countP_singleton]
  split <;> rfl

theorem Compressed.Holds.within_le {bytes : Bytes} {n k : Nat} (h : Holds bytes n) (le : k ≤ n) : Within (compressed k) bytes.length := by
  rcases h with ⟨w, bound, rfl⟩
  have held : Holds (w.write k) k := ⟨w, Nat.lt_of_le_of_lt le bound, rfl⟩
  have length : (w.write k).length = (w.write n).length := by cases w <;> rfl
  rw [← length]
  exact held.within

theorem CodedKind.typeDefOrRef_tables {tag : Nat} {table : Table} (h : typeDefOrRef.tables[tag]? = some table) :
    typeDefOrRef.tables.find? (·.number == table.number) = some table ∧ typeDefOrRef.tables.idxOf? table = some tag := by
  match tag, h with
  | 0, rfl => decide
  | 1, rfl => decide
  | 2, rfl => decide

theorem CodedIndex.Named.tagged {index : CodedIndex} {bytes : Bytes} (named : index.Named bytes) : ∃ tag : Nat,
    CodedKind.typeDefOrRef.tables[tag]? = some index.table ∧ index.row ≠ 0 ∧ Holds bytes (index.row * 4 + tag) := by
  rcases named with ⟨number, held, decoded, row⟩
  have bits : 2 ^ CodedKind.typeDefOrRef.tagBits = 4 := by decide
  unfold decode at decoded
  rw [bits] at decoded
  cases found : CodedKind.typeDefOrRef.tables[number % 4]? with
  | none =>
    simp only [found] at decoded
    cases decoded
  | some table =>
    simp only [found] at decoded
    cases decoded
    exact ⟨number % 4, found, row, (Nat.div_add_mod' number 4).symm ▸ held⟩

namespace Signature

/-- The tag of a table stays, and the row is the one that the token holds. -/
theorem encodeToken_eq {tag : Nat} {table : Table} (h : CodedKind.typeDefOrRef.tables[tag]? = some table) {token : Token}
    (number : token.tableNumber = table.number) : encodeToken token = compressed (token.row * 4 + tag) := by
  have rows := token.row_lt
  have few : tag < 3 := (List.getElem?_eq_some_iff.mp h).1
  have bits : 2 ^ CodedKind.typeDefOrRef.tagBits = 4 := by decide
  rcases CodedKind.typeDefOrRef_tables h with ⟨first, position⟩
  unfold encodeToken CodedIndex.ofToken
  rw [number, first, ok_bind]
  unfold CodedIndex.encode
  rw [position, ok_bind, bits]
  dsimp only
  rw [Nat.mod_eq_of_lt (by omega)]

/-- The name of a row is written in no more bytes, and in three bytes less if nothing of the row is left. -/
theorem leaves_encodeToken {index : CodedIndex} {bytes : Bytes} (named : index.Named bytes) :
    Leaves (encodeToken index.token) (CodedIndex.spare [index]) bytes.length := by
  rw [CodedIndex.spare_singleton]
  rcases named.tagged with ⟨tag, candidate, row, held⟩
  have few : tag < 3 := (List.getElem?_eq_some_iff.mp candidate).1
  have number := Token.tableNumber_ofRow index.table index.row
  have low := Token.row_ofRow index.table index.row
  unfold CodedIndex.isLost CodedIndex.token
  generalize Token.ofRow index.table index.row = token at number low ⊢
  rw [encodeToken_eq candidate number]
  by_cases lost : (token.row == 0) = true
  · rw [beq_iff_eq] at lost
    have four := held.length_eq_four (by omega)
    have small : tag < 2 ^ 7 := by omega
    rw [lost, Nat.zero_mul, Nat.zero_add, four]
    refine ⟨Width.one.write tag, ?_, Nat.le_refl 4⟩
    unfold compressed width?
    rw [if_pos small]
  · rw [if_neg lost]
    exact held.within_le (by omega)

theorem named_of_encodeToken {token : Token} {bytes : Bytes} (h : encodeToken token = .ok bytes) (row : token.row ≠ 0) :
    ∃ index : CodedIndex, index.Named bytes ∧ index.token = token := by
  rcases bind_eq_ok.mp h with ⟨index, coded, h⟩
  rcases bind_eq_ok.mp h with ⟨number, encoded, h⟩
  rcases CodedIndex.ofToken_eq_ok coded with ⟨same, own, small, -⟩
  refine ⟨index, ⟨number, holds_of_compressed h, CodedIndex.decode_encode small encoded, ?_⟩, same⟩
  rw [own]
  exact row

/-! Shapes -/

theorem within_encodeCounted {α : Type} {encode : α → Result Bytes} {items : List α} {p : Bytes → α → Prop} {count bytes : Bytes}
    (held : Holds count items.length) (all : Sequence p bytes items) (each : ∀ bytes a, p bytes a → Within (encode a) bytes.length) :
    Within (encodeCounted encode items) (count.length + bytes.length) := by
  rcases held.within with ⟨front, hfront, short⟩
  rcases within_mapM all each with ⟨parts, hparts, short'⟩
  refine ⟨front ++ parts.flatten, ?_, ?_⟩
  · unfold encodeCounted
    rw [hfront, ok_bind, hparts]
    rfl
  · rw [List.length_append]
    omega

theorem encodeCounted_eq_ok {α : Type} {encode : α → Result Bytes} {items : List α} {bytes : Bytes}
    (h : encodeCounted encode items = .ok bytes) : ∃ front back, bytes = front ++ back ∧ Holds front items.length ∧
      Sequence (fun bytes a => encode a = .ok bytes) back items := by
  rcases bind_eq_ok.mp h with ⟨front, hfront, h⟩
  rcases bind_eq_ok.mp h with ⟨parts, hparts, h⟩
  exact ⟨front, parts.flatten, (pure_eq_ok.mp h).symm, holds_of_compressed hfront, sequence_of_mapM hparts⟩

theorem within_encodeShape {shape : ArrayShape} {bytes : Bytes} (spelled : shape.Spelled bytes) :
    Within (encodeShape shape) bytes.length := by
  cases spelled with
  | intro regular rank sizeCount sizes boundCount bounds =>
    rcases rank.within with ⟨front, hfront, short⟩
    rcases within_encodeCounted sizeCount sizes fun _ _ => Holds.within with ⟨middle, hmiddle, short'⟩
    rcases within_encodeCounted boundCount bounds fun _ _ => HoldsInt.within with ⟨back, hback, short''⟩
    refine ⟨front ++ middle ++ back, ?_, ?_⟩
    · unfold encodeShape
      rw [hfront, ok_bind, hmiddle, ok_bind, hback]
      rfl
    · simp only [List.length_append]
      omega

theorem spelled_of_encodeShape {shape : ArrayShape} {bytes : Bytes} (h : encodeShape shape = .ok bytes) (regular : shape.Regular) :
    shape.Spelled bytes := by
  rcases bind_eq_ok.mp h with ⟨rank, hrank, h⟩
  rcases bind_eq_ok.mp h with ⟨sizes, hsizes, h⟩
  rcases bind_eq_ok.mp h with ⟨bounds, hbounds, h⟩
  cases pure_eq_ok.mp h
  rcases encodeCounted_eq_ok hsizes with ⟨sizeCount, sizes, rfl, heldSizeCount, heldSizes⟩
  rcases encodeCounted_eq_ok hbounds with ⟨boundCount, bounds, rfl, heldBoundCount, heldBounds⟩
  rw [List.append_assoc, List.append_assoc]
  refine .intro regular (holds_of_compressed hrank) heldSizeCount ?_ heldBoundCount ?_
  · rw [← List.map_id shape.sizes]
    exact heldSizes.map fun _ _ => holds_of_compressed
  · rw [← List.map_id shape.lowerBounds]
    exact heldBounds.map fun _ _ => holdsInt_of_compressedInt

/-! Types and methods -/

/-- What stands behind the header for the type parameters of a method. -/
def encodeGenerics (m : MethodSig) : Result Bytes :=
  if 0 < m.typeParameters then compressed m.typeParameters.toNat else .ok []

theorem encodeMethod_eq_ok {m : MethodSig} {bytes : Bytes} : encodeMethod m = .ok bytes ↔ ∃ generics count first others more,
    encodeGenerics m = .ok generics ∧ compressed (m.parameters.length + m.extra.length) = .ok count ∧
      encodeType m.returns = .ok first ∧ encodeTypes m.parameters = .ok others ∧ encodeTypes m.extra = .ok more ∧
        bytes = methodHeader m :: (generics ++ (count ++ (first ++ (others ++ (MethodSig.mark m.extra ++ more))))) := by
  rcases m with ⟨this, explicit, convention, typeParameters, returns, parameters, extra⟩
  have bytes_eq (generics count first others more : Bytes) (header : UInt8) :
      header :: generics ++ count ++ first ++ others ++ (if extra.isEmpty then [] else [Element.sentinel]) ++ more =
        header :: (generics ++ (count ++ (first ++ (others ++ (MethodSig.mark extra ++ more))))) := by
    simp only [MethodSig.mark, List.cons_append, List.append_assoc]
  have rest (written : Result Bytes) : (do
      let generics ← written
      let count ← compressed (parameters.length + extra.length)
      let first ← encodeType returns
      let others ← encodeTypes parameters
      let more ← encodeTypes extra
      return methodHeader ⟨this, explicit, convention, typeParameters, returns, parameters, extra⟩ :: generics ++ count ++ first ++
        others ++ (if extra.isEmpty then [] else [Element.sentinel]) ++ more) = .ok bytes ↔
      ∃ generics count first others more, written = .ok generics ∧ compressed (parameters.length + extra.length) = .ok count ∧
        encodeType returns = .ok first ∧ encodeTypes parameters = .ok others ∧ encodeTypes extra = .ok more ∧
          bytes = methodHeader ⟨this, explicit, convention, typeParameters, returns, parameters, extra⟩ ::
            (generics ++ (count ++ (first ++ (others ++ (MethodSig.mark extra ++ more))))) := by
    constructor
    · intro h
      rcases bind_eq_ok.mp h with ⟨generics, hgenerics, h⟩
      rcases bind_eq_ok.mp h with ⟨count, hcount, h⟩
      rcases bind_eq_ok.mp h with ⟨first, hfirst, h⟩
      rcases bind_eq_ok.mp h with ⟨others, hothers, h⟩
      rcases bind_eq_ok.mp h with ⟨more, hmore, h⟩
      refine ⟨generics, count, first, others, more, hgenerics, hcount, hfirst, hothers, hmore, ?_⟩
      rw [← bytes_eq]
      exact (pure_eq_ok.mp h).symm
    · rintro ⟨generics, count, first, others, more, rfl, hcount, hfirst, hothers, hmore, rfl⟩
      rw [← bytes_eq, ok_bind, hcount, ok_bind, hfirst, ok_bind, hothers, ok_bind, hmore]
      rfl
  rw [encodeMethod]
  unfold encodeGenerics
  by_cases positive : 0 < typeParameters
  · simp only [positive, ↓reduceIte]
    exact rest _
  · simp only [positive, ↓reduceIte]
    exact rest _

theorem within_generics {m : MethodSig} {header : UInt8} {bytes : Bytes} (counted : m.Counted header bytes) :
    Within (encodeGenerics m) bytes.length := by
  unfold MethodSig.Counted at counted
  unfold encodeGenerics
  by_cases positive : 0 < m.typeParameters
  · rw [if_pos positive]
    by_cases plain : header &&& SignatureHeader.generic = 0
    · rw [if_pos plain] at counted
      rw [counted.1] at positive
      exact absurd positive (by decide)
    · rw [if_neg plain] at counted
      exact counted.within
  · rw [if_neg positive]
    exact ⟨[], rfl, Nat.zero_le _⟩

mutual

theorem leaves_encodeType : ∀ {t : TypeSig} {bytes names}, t.Spelled bytes names →
    Leaves (encodeType t) (CodedIndex.spare names) bytes.length
  | .primitive kind, _, _, h => by
    cases h
    exact ⟨[kind.code], rfl, Nat.le_refl 1⟩
  | .pointer t, _, _, h => by
    cases h with
    | pointer base => exact (leaves_encodeType base).cons _
  | .byReference t, _, _, h => by
    cases h with
    | byReference base => exact (leaves_encodeType base).cons _
  | .pinned t, _, _, h => by
    cases h with
    | pinned base => exact (leaves_encodeType base).cons _
  | .vector t, _, _, h => by
    cases h with
    | vector element => exact (leaves_encodeType element).cons _
  | .classType token, _, _, h => by
    cases h with
    | classType named => exact (leaves_encodeToken named).cons _
  | .valueType token, _, _, h => by
    cases h with
    | valueType named => exact (leaves_encodeToken named).cons _
  | .typeParameter number, _, _, h => by
    cases h with
    | typeParameter held => exact held.within.leaves.cons _
  | .methodParameter number, _, _, h => by
    cases h with
    | methodParameter held => exact held.within.leaves.cons _
  | .array t shape, _, _, h => by
    cases h with
    | array element spelled =>
      rcases leaves_encodeType element with ⟨front, hfront, room⟩
      rcases within_encodeShape spelled with ⟨back, hback, short⟩
      refine ⟨Element.array :: front ++ back, ?_, ?_⟩
      · rw [encodeType, hfront, ok_bind, hback]
        rfl
      · simp only [List.length_cons, List.length_append]
        omega
  | .generic t ts, _, _, h => by
    cases h with
    | generic _ _ base held arguments =>
      rcases leaves_encodeType base with ⟨front, hfront, room⟩
      rcases held.within with ⟨count, hcount, short⟩
      rcases leaves_encodeTypes arguments with ⟨back, hback, room'⟩
      refine ⟨Element.generic :: front ++ count ++ back, ?_, ?_⟩
      · rw [encodeType, hfront, ok_bind, hcount, ok_bind, hback]
        rfl
      · simp only [CodedIndex.spare_append, List.length_cons, List.length_append]
        omega
  | .function m, _, _, h => by
    cases h with
    | function method => exact (leaves_encodeMethod method).cons _
  | .modified required modifier t, _, _, h => by
    cases h with
    | @modified _ index bytes _ others names named base =>
      rcases leaves_encodeToken named with ⟨front, hfront, room⟩
      rcases leaves_encodeType base with ⟨back, hback, room'⟩
      refine ⟨(if required then Element.requiredModifier else Element.optionalModifier) :: front ++ back, ?_, ?_⟩
      · rw [encodeType, hfront, ok_bind, hback]
        rfl
      · have split := CodedIndex.spare_append [index] names
        rw [List.singleton_append] at split
        simp only [split, List.length_cons, List.length_append]
        omega

theorem leaves_encodeMethod : ∀ {m : MethodSig} {bytes names}, m.Spelled bytes names →
    Leaves (encodeMethod m) (CodedIndex.spare names) bytes.length
  | ⟨_, _, _, _, _, _, _⟩, _, _, h => by
    cases h with
    | intro headed counted held returns parameters extra =>
      rcases within_generics counted with ⟨generics, hgenerics, short⟩
      rcases held.within with ⟨count, hcount, short'⟩
      rcases leaves_encodeType returns with ⟨first, hfirst, room⟩
      rcases leaves_encodeTypes parameters with ⟨others, hothers, room'⟩
      rcases leaves_encodeTypes extra with ⟨more, hmore, room''⟩
      refine ⟨_, encodeMethod_eq_ok.mpr ⟨generics, count, first, others, more, hgenerics, hcount, hfirst, hothers, hmore, rfl⟩, ?_⟩
      simp only [CodedIndex.spare_append, List.length_cons, List.length_append]
      omega

theorem leaves_encodeTypes : ∀ {ts : List TypeSig} {bytes names}, TypeSig.AllSpelled ts bytes names →
    Leaves (encodeTypes ts) (CodedIndex.spare names) bytes.length
  | [], _, _, h => by
    cases h
    exact ⟨[], rfl, Nat.le_refl 0⟩
  | t :: ts, _, _, h => by
    cases h with
    | cons first others =>
      rcases leaves_encodeType first with ⟨front, hfront, room⟩
      rcases leaves_encodeTypes others with ⟨back, hback, room'⟩
      refine ⟨front ++ back, ?_, ?_⟩
      · rw [encodeTypes, hfront, ok_bind, hback]
        rfl
      · simp only [CodedIndex.spare_append, List.length_append]
        omega

end

theorem header_bits : ∀ convention : UInt8, convention ≤ MethodSig.variadic → ∀ this explicit generic : Bool,
    let header := (convention &&& SignatureHeader.conventionMask) ||| (if this then SignatureHeader.hasThis else 0) |||
      (if explicit then SignatureHeader.explicitThis else 0) ||| (if generic then SignatureHeader.generic else 0)
    this = (header &&& SignatureHeader.hasThis != 0) ∧ explicit = (header &&& SignatureHeader.explicitThis != 0) ∧
      convention = header &&& SignatureHeader.conventionMask ∧ generic = (header &&& SignatureHeader.generic != 0) := by
  decide +kernel

theorem headed_methodHeader {m : MethodSig} (known : m.convention ≤ MethodSig.variadic) :
    m.Headed (methodHeader m) ∧ decide (0 < m.typeParameters) = (methodHeader m &&& SignatureHeader.generic != 0) := by
  have bits := header_bits m.convention known m.hasThis m.explicitThis (decide (0 < m.typeParameters))
  simp only [decide_eq_true_eq] at bits
  exact ⟨⟨bits.1, bits.2.1, bits.2.2.1, known⟩, bits.2.2.2⟩

theorem counted_methodHeader {m : MethodSig} {bytes : Bytes} (known : m.convention ≤ MethodSig.variadic)
    (h : encodeGenerics m = .ok bytes) : m.Counted (methodHeader m) bytes := by
  rcases headed_methodHeader known with ⟨-, generic⟩
  unfold encodeGenerics at h
  unfold MethodSig.Counted
  by_cases positive : 0 < m.typeParameters
  · rw [if_pos positive] at h
    rw [decide_eq_true positive] at generic
    rw [if_neg (bne_iff_ne.mp generic.symm)]
    exact holds_of_compressed h
  · rw [if_neg positive] at h
    rw [decide_eq_false positive] at generic
    rw [if_pos (by simpa using generic.symm)]
    refine ⟨?_, (Except.ok.inj h).symm⟩
    rw [UInt32.lt_iff_toNat_lt] at positive
    exact UInt32.toNat.inj (Nat.eq_zero_of_not_pos positive)

mutual

theorem spelled_of_encodeType : ∀ {t : TypeSig} {bytes}, encodeType t = .ok bytes → t.Regular →
    (∀ token ∈ t.tokens, token.row ≠ 0) → ∃ names, t.Spelled bytes names
  | .primitive kind, _, h, _, _ => by
    cases h
    exact ⟨[], .primitive kind⟩
  | .pointer t, _, h, regular, rows => by
    rcases cons_eq_ok.mp h with ⟨bytes, base, rfl⟩
    rcases spelled_of_encodeType base regular rows with ⟨names, base⟩
    exact ⟨names, .pointer base⟩
  | .byReference t, _, h, regular, rows => by
    rcases cons_eq_ok.mp h with ⟨bytes, base, rfl⟩
    rcases spelled_of_encodeType base regular rows with ⟨names, base⟩
    exact ⟨names, .byReference base⟩
  | .pinned t, _, h, regular, rows => by
    rcases cons_eq_ok.mp h with ⟨bytes, base, rfl⟩
    rcases spelled_of_encodeType base regular rows with ⟨names, base⟩
    exact ⟨names, .pinned base⟩
  | .vector t, _, h, regular, rows => by
    rcases cons_eq_ok.mp h with ⟨bytes, element, rfl⟩
    rcases spelled_of_encodeType element regular rows with ⟨names, element⟩
    exact ⟨names, .vector element⟩
  | .classType token, _, h, _, rows => by
    rcases cons_eq_ok.mp h with ⟨bytes, written, rfl⟩
    rcases named_of_encodeToken written (rows token List.mem_cons_self) with ⟨index, named, rfl⟩
    exact ⟨[index], .classType named⟩
  | .valueType token, _, h, _, rows => by
    rcases cons_eq_ok.mp h with ⟨bytes, written, rfl⟩
    rcases named_of_encodeToken written (rows token List.mem_cons_self) with ⟨index, named, rfl⟩
    exact ⟨[index], .valueType named⟩
  | .typeParameter number, _, h, _, _ => by
    rcases cons_eq_ok.mp h with ⟨bytes, written, rfl⟩
    exact ⟨[], .typeParameter (holds_of_compressed written)⟩
  | .methodParameter number, _, h, _, _ => by
    rcases cons_eq_ok.mp h with ⟨bytes, written, rfl⟩
    exact ⟨[], .methodParameter (holds_of_compressed written)⟩
  | .array t shape, _, h, regular, rows => by
    rcases bind_eq_ok.mp h with ⟨front, element, h⟩
    rcases bind_eq_ok.mp h with ⟨back, written, h⟩
    cases pure_eq_ok.mp h
    rcases spelled_of_encodeType element regular.1 rows with ⟨names, element⟩
    exact ⟨names, .array element (spelled_of_encodeShape written regular.2)⟩
  | .generic t ts, _, h, regular, rows => by
    rcases bind_eq_ok.mp h with ⟨front, base, h⟩
    rcases bind_eq_ok.mp h with ⟨count, written, h⟩
    rcases bind_eq_ok.mp h with ⟨back, arguments, h⟩
    cases pure_eq_ok.mp h
    rcases regular with ⟨named, nonempty, baseRegular, argumentsRegular⟩
    rcases List.forall_mem_append.mp rows with ⟨baseRows, argumentRows⟩
    rcases spelled_of_encodeType base baseRegular baseRows with ⟨names, base⟩
    rcases allSpelled_of_encodeTypes arguments argumentsRegular argumentRows with ⟨names', arguments⟩
    rw [List.append_assoc]
    exact ⟨names ++ names', .generic named nonempty base (holds_of_compressed written) arguments⟩
  | .function m, _, h, regular, rows => by
    rcases cons_eq_ok.mp h with ⟨bytes, method, rfl⟩
    rcases spelled_of_encodeMethod method regular rows with ⟨names, method⟩
    exact ⟨names, .function method⟩
  | .modified required modifier t, _, h, regular, rows => by
    rcases bind_eq_ok.mp h with ⟨front, written, h⟩
    rcases bind_eq_ok.mp h with ⟨back, base, h⟩
    cases pure_eq_ok.mp h
    rcases List.forall_mem_cons.mp rows with ⟨row, others⟩
    rcases spelled_of_encodeType base regular others with ⟨names, base⟩
    rcases named_of_encodeToken written row with ⟨index, named, rfl⟩
    exact ⟨index :: names, .modified required named base⟩

theorem spelled_of_encodeMethod : ∀ {m : MethodSig} {bytes}, encodeMethod m = .ok bytes → m.Regular →
    (∀ token ∈ m.tokens, token.row ≠ 0) → ∃ names, m.Spelled bytes names
  | ⟨_, _, _, _, _, _, _⟩, _, h, regular, rows => by
    rcases encodeMethod_eq_ok.mp h with ⟨generics, count, first, others, more, hgenerics, hcount, hfirst, hothers, hmore, rfl⟩
    rcases regular with ⟨known, returnsRegular, parametersRegular, extraRegular⟩
    rcases List.forall_mem_append.mp rows with ⟨returnsRows, rows⟩
    rcases List.forall_mem_append.mp rows with ⟨parametersRows, extraRows⟩
    rcases spelled_of_encodeType hfirst returnsRegular returnsRows with ⟨names, returns⟩
    rcases allSpelled_of_encodeTypes hothers parametersRegular parametersRows with ⟨names', parameters⟩
    rcases allSpelled_of_encodeTypes hmore extraRegular extraRows with ⟨names'', extra⟩
    exact ⟨names ++ (names' ++ names''), .intro (headed_methodHeader known).1 (counted_methodHeader known hgenerics)
      (holds_of_compressed hcount) returns parameters extra⟩

theorem allSpelled_of_encodeTypes : ∀ {ts : List TypeSig} {bytes}, encodeTypes ts = .ok bytes → TypeSig.AllRegular ts →
    (∀ token ∈ TypeSig.tokensOfAll ts, token.row ≠ 0) → ∃ names, TypeSig.AllSpelled ts bytes names
  | [], _, h, _, _ => by
    cases h
    exact ⟨[], .nil⟩
  | t :: ts, _, h, regular, rows => by
    rcases bind_eq_ok.mp h with ⟨front, first, h⟩
    rcases bind_eq_ok.mp h with ⟨back, others, h⟩
    cases pure_eq_ok.mp h
    rcases List.forall_mem_append.mp rows with ⟨firstRows, otherRows⟩
    rcases spelled_of_encodeType first regular.1 firstRows with ⟨names, first⟩
    rcases allSpelled_of_encodeTypes others regular.2 otherRows with ⟨names', others⟩
    exact ⟨names ++ names', .cons first others⟩

end

end Signature

end CilWeaver
