import CilWeaver.Proofs.SignatureGrammar

/-!
A reader of signatures accepts the spellings of signatures that nest few enough types, and nothing else.
-/

namespace CilWeaver

open Step Reader Compressed

namespace SignatureReader

/-- The bytes spell a type that nests at most `budget` types. -/
def Accepted (budget : Nat) (bytes : Bytes) (t : TypeSig) : Prop := ∃ names, t.Spelled bytes names ∧ t.depth ≤ budget

theorem allSpelled_of_accepted {budget : Nat} {bytes : Bytes} {ts : List TypeSig} (h : Sequence (Accepted budget) bytes ts) :
    ∃ names, TypeSig.AllSpelled ts bytes names ∧ TypeSig.depthOfAll ts ≤ budget := by
  induction h with
  | nil => exact ⟨[], .nil, Nat.zero_le _⟩
  | cons first others ih =>
    rcases first with ⟨names, first, inside⟩
    rcases ih with ⟨names', others, inside'⟩
    exact ⟨names ++ names', .cons first others, Nat.max_le.mpr ⟨inside, inside'⟩⟩

/-! What is accepted -/

theorem consumes_typeToken : typeToken.Consumes fun taken token => ∃ index : CodedIndex, index.Named taken ∧ token = index.token := by
  apply consumes_compressed.bind
  intro taken number held
  cases decoded : CodedIndex.decode .typeDefOrRef number with
  | error e => exact Spans.throw e _
  | ok index =>
    apply Consumes.check
    intro row
    apply Consumes.pure
    rw [List.append_nil]
    exact ⟨index, ⟨number, held, decoded, fun none => row (beq_iff_eq.mpr none)⟩, rfl⟩

theorem consumes_arrayShape : arrayShape.Consumes fun taken shape => shape.Spelled taken := by
  apply consumes_compressed.bind
  intro rankBytes rank heldRank
  apply Consumes.check
  intro positive
  apply consumes_compressed.bind
  intro sizeCountBytes sizeCount heldSizeCount
  apply Consumes.check
  intro fewSizes
  apply (consumes_compressed.times _).bind
  rintro sizesBytes sizes ⟨rfl, heldSizes⟩
  apply consumes_compressed.bind
  intro boundCountBytes boundCount heldBoundCount
  apply Consumes.check
  intro fewBounds
  apply (consumes_compressedInt.times _).bind
  rintro boundsBytes bounds ⟨rfl, heldBounds⟩
  apply Consumes.pure
  have number := heldRank.toNat_ofNat
  rw [List.append_nil]
  refine .intro ⟨?_, ?_, ?_⟩ heldRank.ofNat ?_ (heldSizes.map fun _ _ => Holds.ofNat) ?_
    (heldBounds.map fun _ _ => HoldsInt.ofInt)
  · intro zero
    change UInt32.ofNat rank = 0 at zero
    rw [zero] at number
    exact positive (beq_iff_eq.mpr number.symm)
  · rw [number, List.length_map]
    exact Nat.not_lt.mp fewSizes
  · rw [number, List.length_map]
    exact Nat.not_lt.mp fewBounds
  · rw [List.length_map]
    exact heldSizeCount
  · rw [List.length_map]
    exact heldBoundCount

section

variable {p : Bytes → TypeSig → Prop} {type : Reader TypeSig}

/-- Behind the mark, all arguments are extra ones. -/
theorem consumes_marked (types : type.Consumes p) (declared extra : List TypeSig) (count : Nat) :
    (parameters type true declared extra count).Consumes fun taken found => ∃ others,
      found = (declared.reverse, extra.reverse ++ others) ∧ others.length = count ∧ Sequence p taken others := by
  induction count generalizing extra with
  | zero => exact Consumes.pure ⟨[], by rw [List.append_nil], rfl, .nil⟩
  | succ count ih =>
    apply types.bind
    intro front t first
    apply (ih (t :: extra)).mono
    rintro back found ⟨others, rfl, length, all⟩
    exact ⟨t :: others, by simp, by rw [List.length_cons, length], .cons first all⟩

theorem consumes_parameters (types : type.Consumes p) (declared : List TypeSig) (count : Nat) :
    (parameters type false declared [] count).Consumes fun taken found => ∃ more others front back,
      found = (declared.reverse ++ more, others) ∧ more.length + others.length = count ∧
        taken = front ++ (MethodSig.mark others ++ back) ∧ Sequence p front more ∧ Sequence p back others := by
  induction count generalizing declared with
  | zero => exact Consumes.pure ⟨[], [], [], [], by rw [List.append_nil]; rfl, rfl, rfl, .nil, .nil⟩
  | succ count ih =>
    unfold parameters
    simp only [Bool.false_eq_true, ↓reduceIte, map_eq_pure_bind, bind_assoc, pure_bind, Bool.false_or]
    apply Consumes.peek_bind
    intro b
    apply Consumes.ite
    · intro marked
      apply (Consumes.skip 1).bind
      intro skipped _ one
      rcases List.length_eq_one_iff.mp one with ⟨ahead, rfl⟩
      apply types.bind
      intro front t first
      rw [if_pos marked]
      apply (consumes_marked types declared [t] count).mono
      rintro back found ⟨others, rfl, length, all⟩ peeked
      have mark : [ahead] = MethodSig.mark (t :: others) := by
        have same := peeked (by simp)
        rw [List.cons_append, List.head?_cons] at same
        rw [Option.some.inj same, beq_iff_eq.mp marked]
        rfl
      refine ⟨[], t :: others, [], front ++ back, ?_, ?_, ?_, .nil, .cons first all⟩
      · rw [List.append_nil]
        rfl
      · rw [List.length_nil, List.length_cons, Nat.zero_add, length]
      · rw [List.nil_append, mark]
    · intro unmarked
      apply types.bind
      intro front t first
      rw [if_neg unmarked]
      apply (ih (t :: declared)).mono
      rintro back found ⟨more, others, front', back', rfl, length, rfl, all, all'⟩ -
      refine ⟨t :: more, others, front ++ front', back', by simp, ?_, by simp, .cons first all, all'⟩
      rw [List.length_cons]
      omega

end

theorem consumes_methodWith {budget : Nat} {type : Reader TypeSig} (types : type.Consumes (Accepted budget)) :
    (methodWith type).Consumes fun taken m => ∃ names, m.Spelled taken names ∧ m.depth ≤ budget := by
  apply Consumes.byte.bind
  rintro _ header rfl
  apply Consumes.check
  intro known
  extract_lets rest
  have finish (typeParameters : Nat) (bytes : Bytes)
      (counted : if header &&& SignatureHeader.generic = 0 then typeParameters = 0 ∧ bytes = [] else Holds bytes typeParameters) :
      (rest typeParameters).Consumes fun taken m =>
        ∃ names, m.Spelled ([header] ++ (bytes ++ taken)) names ∧ m.depth ≤ budget := by
    apply consumes_compressed.bind
    intro countBytes count heldCount
    apply types.bind
    rintro first returns ⟨names, returnsSpelled, returnsInside⟩
    apply (consumes_parameters types [] count).bind
    rintro _ _ ⟨declared, extra, others, more, rfl, length, rfl, declaredAll, extraAll⟩
    rcases allSpelled_of_accepted declaredAll with ⟨names', declaredSpelled, declaredInside⟩
    rcases allSpelled_of_accepted extraAll with ⟨names'', extraSpelled, extraInside⟩
    apply Consumes.pure
    refine ⟨names ++ (names' ++ names''), ?_, Nat.max_le.mpr ⟨returnsInside, Nat.max_le.mpr ⟨declaredInside, extraInside⟩⟩⟩
    rw [List.append_nil]
    refine .intro ⟨rfl, rfl, rfl, Nat.not_lt.mp known⟩ ?_ ?_ returnsSpelled declaredSpelled extraSpelled
    · unfold MethodSig.Counted
      by_cases plain : header &&& SignatureHeader.generic = 0
      · rw [if_pos plain] at counted ⊢
        exact ⟨by rw [counted.1]; rfl, counted.2⟩
      · rw [if_neg plain] at counted ⊢
        exact Holds.ofNat counted
    · rw [← length] at heldCount
      exact heldCount
  apply Consumes.ite
  · intro generic
    apply consumes_compressed.bind
    intro bytes typeParameters held
    apply finish
    rw [if_neg (by simpa using generic)]
    exact held
  · intro plain
    apply Consumes.bind (Consumes.pure (p := fun taken n => taken = [] ∧ n = 0) ⟨rfl, rfl⟩)
    rintro _ _ ⟨rfl, rfl⟩
    apply finish
    rw [if_pos (by simpa using plain)]
    exact ⟨rfl, rfl⟩

/-- What stands behind the byte of a generic type. -/
def genericRest (type : Reader TypeSig) : Reader TypeSig := do
  let next ← Reader.peek
  if next != Element.classType && next != Element.valueType then Reader.malformed (.genericBase next)
  let base ← type
  let count ← Reader.compressed
  if count == 0 then Reader.malformed .genericWithoutArguments
  return .generic base (← Reader.times count type)

theorem consumes_genericRest {budget : Nat} {type : Reader TypeSig} (types : type.Consumes (Accepted budget)) :
    (genericRest type).Consumes fun taken t => Accepted (budget + 1) (Element.generic :: taken) t := by
  apply Consumes.peek_bind
  intro next
  apply Consumes.check
  intro expected
  apply types.bind
  rintro front t ⟨names, own, inside⟩
  apply consumes_compressed.bind
  intro countBytes count held
  apply Consumes.check
  intro positive
  apply Consumes.map
  apply (types.times count).mono
  rintro back ts ⟨rfl, all⟩ peeked
  rcases allSpelled_of_accepted all with ⟨names', others, inside'⟩
  have ahead : t.element = next := by
    have same := peeked (List.append_ne_nil_of_left_ne_nil own.ne_nil _)
    rw [List.head?_append_of_ne_nil _ own.ne_nil, own.head?] at same
    exact Option.some.inj same
  have named : t.isGenericBase = true := by
    rw [t.isGenericBase_eq, ahead]
    simpa [Classical.or_iff_not_imp_left] using expected
  have arguments : ts ≠ [] := fun none => positive (by rw [none]; rfl)
  have whole := TypeSig.Spelled.generic named arguments own held others
  exact ⟨names ++ names', whole, Nat.succ_le_succ (Nat.max_le.mpr ⟨inside, inside'⟩)⟩

/-- What stands behind the byte of a modifier. -/
def modifiedRest (type : Reader TypeSig) (required : Bool) : Reader TypeSig := do
  let modifier ← typeToken
  return .modified required modifier (← type)

theorem consumes_modifiedRest {budget : Nat} {type : Reader TypeSig} (types : type.Consumes (Accepted budget)) {element : UInt8}
    (modifier : (element == Element.requiredModifier || element == Element.optionalModifier) = true) :
    (modifiedRest type (element == Element.requiredModifier)).Consumes fun taken t => Accepted (budget + 1) (element :: taken) t := by
  have same : (if (element == Element.requiredModifier) = true then Element.requiredModifier else Element.optionalModifier) = element := by
    by_cases required : (element == Element.requiredModifier) = true
    · rw [if_pos required, beq_iff_eq.mp required]
    · rw [if_neg required]
      exact (by simpa [required] using modifier : element = Element.optionalModifier).symm
  apply consumes_typeToken.bind
  rintro front _ ⟨index, named, rfl⟩
  apply Consumes.map
  apply types.mono
  rintro back t ⟨names, own, inside⟩
  have whole := TypeSig.Spelled.modified (element == Element.requiredModifier) named own
  rw [same] at whole
  exact ⟨index :: names, whole, Nat.succ_le_succ inside⟩

theorem consumes_typeWithin (budget : Nat) : (typeWithin budget).Consumes (Accepted budget) := by
  induction budget with
  | zero => exact Consumes.malformed _
  | succ budget ih =>
    apply Consumes.byte.bind
    rintro _ element rfl
    cases known : Primitive.ofCode? element with
    | some kind =>
      apply Consumes.pure
      rw [List.append_nil, ← Primitive.code_of_ofCode? known]
      exact ⟨[], .primitive kind, Nat.le_add_left 1 budget⟩
    | none =>
      have one : 1 ≤ budget + 1 := Nat.le_add_left 1 budget
      -- The constructors that hold one type and nothing else are read alike.
      have unary (wrap : TypeSig → TypeSig) (spelled : ∀ t bytes names, t.Spelled bytes names → (wrap t).Spelled (element :: bytes) names)
          (deeper : ∀ t : TypeSig, (wrap t).depth = t.depth + 1) :
          Consumes (do return wrap (← typeWithin budget)) fun taken t => Accepted (budget + 1) ([element] ++ taken) t := by
        apply Consumes.map
        apply ih.mono
        rintro taken t ⟨names, own, inside⟩
        exact ⟨names, spelled t taken names own, by rw [deeper]; exact Nat.succ_le_succ inside⟩
      apply Consumes.ite_eq
      · rintro rfl
        exact unary .pointer (fun _ _ _ => .pointer) fun _ => rfl
      apply Consumes.ite_eq
      · rintro rfl
        exact unary .byReference (fun _ _ _ => .byReference) fun _ => rfl
      apply Consumes.ite_eq
      · rintro rfl
        exact unary .pinned (fun _ _ _ => .pinned) fun _ => rfl
      apply Consumes.ite_eq
      · rintro rfl
        exact unary .vector (fun _ _ _ => .vector) fun _ => rfl
      apply Consumes.ite_eq
      · rintro rfl
        apply Consumes.map
        apply consumes_typeToken.mono
        rintro taken _ ⟨index, named, rfl⟩
        exact ⟨[index], .classType named, one⟩
      apply Consumes.ite_eq
      · rintro rfl
        apply Consumes.map
        apply consumes_typeToken.mono
        rintro taken _ ⟨index, named, rfl⟩
        exact ⟨[index], .valueType named, one⟩
      apply Consumes.ite_eq
      · rintro rfl
        apply Consumes.map
        apply consumes_compressed.mono
        intro taken n held
        exact ⟨[], .typeParameter held.ofNat, one⟩
      apply Consumes.ite_eq
      · rintro rfl
        apply Consumes.map
        apply consumes_compressed.mono
        intro taken n held
        exact ⟨[], .methodParameter held.ofNat, one⟩
      apply Consumes.ite_eq
      · rintro rfl
        apply ih.bind
        rintro front t ⟨names, own, inside⟩
        apply Consumes.map
        apply consumes_arrayShape.mono
        intro back shape spelled
        have whole := TypeSig.Spelled.array own spelled
        exact ⟨names, whole, Nat.succ_le_succ inside⟩
      apply Consumes.ite_eq
      · rintro rfl
        exact consumes_genericRest ih
      apply Consumes.ite_eq
      · rintro rfl
        apply Consumes.map
        apply (consumes_methodWith ih).mono
        rintro taken m ⟨names, own, inside⟩
        exact ⟨names, .function own, Nat.succ_le_succ inside⟩
      apply Consumes.ite
      · intro modifier
        exact consumes_modifiedRest ih modifier
      · intro
        exact Consumes.malformed _

/-! What is read -/

theorem reads_typeToken {index : CodedIndex} {bytes : Bytes} (named : index.Named bytes) (position : Nat) :
    Reads typeToken position bytes index.token := by
  rcases named with ⟨number, held, decoded, row⟩
  rw [← List.append_nil bytes]
  apply (reads_of_holds held position).bind
  have some : ¬ index.isNull = true := fun none => row (beq_iff_eq.mp none)
  simp only [decoded, some, Bool.false_eq_true, ↓reduceIte]
  exact reads_pure _ _

theorem reads_of_succ {depth budget position : Nat} {bytes : Bytes} {t : TypeSig} (inside : depth + 1 ≤ budget)
    (reads : ∀ less, depth ≤ less → Reads (typeWithin (less + 1)) position bytes t) : Reads (typeWithin budget) position bytes t := by
  cases budget with
  | zero => exact absurd inside (Nat.not_succ_le_zero depth)
  | succ less => exact reads less (Nat.le_of_succ_le_succ inside)

theorem reads_arrayShape {shape : ArrayShape} {bytes : Bytes} (spelled : shape.Spelled bytes) (position : Nat) :
    Reads arrayShape position bytes shape := by
  cases spelled with
  | @intro _ _ _ _ bounds' regular heldRank heldSizeCount heldSizes heldBoundCount heldBounds =>
    have sizes := fun position => (readsAll_of_sequence (f := UInt32.toNat) heldSizes (fun _ _ => reads_of_holds) position).times
    have bounds := fun position => (readsAll_of_sequence (f := Int32.toInt) heldBounds (fun _ _ => reads_of_holdsInt) position).times
    have positive : (shape.rank.toNat == 0) = false := by
      rw [beq_eq_false_iff_ne]
      exact fun zero => regular.rank (UInt32.toNat.inj zero)
    have fewSizes : ¬ shape.rank.toNat < shape.sizes.length := Nat.not_lt.mpr regular.sizes
    have fewBounds : ¬ shape.rank.toNat < shape.lowerBounds.length := Nat.not_lt.mpr regular.lowerBounds
    have whole : (⟨.ofNat shape.rank.toNat, (shape.sizes.map UInt32.toNat).map .ofNat, (shape.lowerBounds.map Int32.toInt).map .ofInt⟩ :
        ArrayShape) = shape := by
      simp [Function.comp_def]
    rw [List.length_map] at sizes bounds
    unfold arrayShape
    apply (reads_of_holds heldRank _).bind
    simp only [positive, Bool.false_eq_true, ↓reduceIte]
    apply (reads_of_holds heldSizeCount _).bind
    simp only [fewSizes, ↓reduceIte]
    apply (sizes _).bind
    apply (reads_of_holds heldBoundCount _).bind
    simp only [fewBounds, ↓reduceIte]
    rw [← List.append_nil bounds']
    apply (bounds _).bind
    rw [whole]
    exact reads_pure _ _

section

variable {type : Reader TypeSig} {position : Nat}

theorem reads_marked {bytes : Bytes} {ts : List TypeSig} (all : ReadsAll type position bytes ts) (declared extra : List TypeSig) :
    Reads (parameters type true declared extra ts.length) position bytes (declared.reverse, extra.reverse ++ ts) := by
  induction all generalizing extra with
  | nil position =>
    rw [List.append_nil]
    exact reads_pure _ _
  | @cons position front back t ts first others ih =>
    have rest := ih (t :: extra)
    rw [List.reverse_cons, List.append_assoc] at rest
    exact first.bind rest

theorem reads_parameters (unmarked : ∀ position bytes t, Reads type position bytes t → ∃ b tail, bytes = b :: tail ∧ (b == Element.sentinel) = false)
    {front back : Bytes} {ts others : List TypeSig} (all : ReadsAll type position front ts)
    (rest : ∀ position, ReadsAll type position back others) (declared : List TypeSig) :
    Reads (parameters type false declared [] (ts.length + others.length)) position (front ++ (MethodSig.mark others ++ back))
      (declared.reverse ++ ts, others) := by
  induction all generalizing declared with
  | nil position =>
    cases others with
    | nil =>
      cases rest position
      rw [List.append_nil, List.append_nil]
      exact reads_pure _ _
    | cons t others =>
      cases rest (position + 1) with
      | cons first others =>
        rw [List.length_nil, Nat.zero_add, List.length_cons, List.append_nil]
        unfold parameters
        simp only [Bool.false_eq_true, ↓reduceIte, map_eq_pure_bind, bind_assoc, pure_bind, Bool.false_or]
        apply reads_peek_bind
        have skipped : Reads (skip 1) position [Element.sentinel] () := reads_skip position rfl
        simp only [beq_self_eq_true, ↓reduceIte]
        exact skipped.bind (first.bind (reads_marked others declared [t]))
  | @cons position front front' t ts first following ih =>
    rcases unmarked _ _ _ first with ⟨b, tail, rfl, other⟩
    have next := ih (t :: declared)
    rw [List.reverse_cons, List.append_assoc] at next
    rw [List.length_cons, Nat.succ_add, List.append_assoc]
    unfold parameters
    simp only [Bool.false_eq_true, ↓reduceIte, map_eq_pure_bind, bind_assoc, pure_bind, Bool.false_or]
    apply reads_peek_bind
    simp only [other, Bool.false_eq_true, ↓reduceIte]
    exact first.bind next

end

/-- No type begins with the mark. -/
theorem unmarked_of_reads {budget position : Nat} {bytes : Bytes} {t : TypeSig} (reads : Reads (typeWithin budget) position bytes t) :
    ∃ b tail, bytes = b :: tail ∧ (b == Element.sentinel) = false := by
  rcases (consumes_typeWithin budget).of_reads reads with ⟨names, spelled, -⟩
  rcases List.head?_eq_some_iff.mp spelled.head? with ⟨tail, rfl⟩
  exact ⟨t.element, tail, rfl, t.element_ne_sentinel⟩

theorem reads_methodWith {budget : Nat} {m : MethodSig} {header : UInt8} {generics count first others more : Bytes}
    (headed : m.Headed header) (counted : m.Counted header generics) (held : Holds count (m.parameters.length + m.extra.length))
    (returns : ∀ position, Reads (typeWithin budget) position first m.returns)
    (parameters : ∀ position, ReadsAll (typeWithin budget) position others m.parameters)
    (extra : ∀ position, ReadsAll (typeWithin budget) position more m.extra) (position : Nat) :
    Reads (methodWith (typeWithin budget)) position
      (header :: (generics ++ (count ++ (first ++ (others ++ (MethodSig.mark m.extra ++ more)))))) m := by
  have whole : (⟨m.hasThis, m.explicitThis, m.convention, m.typeParameters, m.returns, m.parameters, m.extra⟩ : MethodSig) = m := by
    cases m
    rfl
  have known : ¬ MethodSig.variadic < header &&& SignatureHeader.conventionMask := by
    rw [← headed.convention]
    exact UInt8.not_lt.mpr headed.known
  unfold methodWith
  apply reads_byte_bind
  simp only [known, ↓reduceIte]
  have finish (position : Nat) : Reads (do
      let count ← Reader.compressed
      let returns ← typeWithin budget
      let found ← SignatureReader.parameters (typeWithin budget) false [] [] count
      return (⟨header &&& SignatureHeader.hasThis != 0, header &&& SignatureHeader.explicitThis != 0,
        header &&& SignatureHeader.conventionMask, .ofNat m.typeParameters.toNat, returns, found.1, found.2⟩ : MethodSig))
      position (count ++ (first ++ (others ++ (MethodSig.mark m.extra ++ more)))) m := by
    apply (reads_of_holds held position).bind
    apply (returns _).bind
    rw [← headed.hasThis, ← headed.explicitThis, ← headed.convention, UInt32.ofNat_toNat, ← List.append_nil (others ++ _)]
    apply (reads_parameters (fun _ _ _ => unmarked_of_reads) (parameters _) extra []).bind
    simp only [List.reverse_nil, List.nil_append, whole]
    exact reads_pure _ m
  unfold MethodSig.Counted at counted
  by_cases plain : header &&& SignatureHeader.generic = 0
  · rw [if_pos plain] at counted
    have none : m.typeParameters.toNat = 0 := by
      rw [counted.1]
      rfl
    rw [none] at finish
    simp only [plain, bne_self_eq_false, Bool.false_eq_true, ↓reduceIte, counted.2, List.nil_append]
    exact (reads_pure _ 0).bind_nil (finish _)
  · rw [if_neg plain] at counted
    simp only [bne_iff_ne, ne_eq, plain, not_false_eq_true, ↓reduceIte]
    exact (reads_of_holds counted _).bind (finish _)

theorem reads_genericRest {type : Reader TypeSig} {t : TypeSig} {ts : List TypeSig} {bytes count others : Bytes}
    (named : t.isGenericBase = true) (nonempty : ts ≠ []) (head : bytes.head? = some t.element) (held : Holds count ts.length)
    (base : ∀ position, Reads type position bytes t) (arguments : ∀ position, ReadsAll type position others ts) (position : Nat) :
    Reads (genericRest type) position (bytes ++ (count ++ others)) (.generic t ts) := by
  rcases List.head?_eq_some_iff.mp head with ⟨tail, rfl⟩
  have expected : (t.element != Element.classType && t.element != Element.valueType) = false := by
    rw [t.isGenericBase_eq] at named
    simpa [Classical.or_iff_not_imp_left] using named
  have positive : (ts.length == 0) = false := by simpa using nonempty
  apply reads_peek_bind
  simp only [expected, Bool.false_eq_true, ↓reduceIte]
  apply (base position).bind
  apply (reads_of_holds held _).bind
  simp only [positive, Bool.false_eq_true, ↓reduceIte]
  exact (arguments _).times.map (TypeSig.generic t)

mutual

theorem reads_type : ∀ {t : TypeSig} {bytes names}, t.Spelled bytes names → ∀ {budget}, t.depth ≤ budget → ∀ position,
    Reads (typeWithin budget) position bytes t
  | .primitive kind, _, _, h, budget, inside, position => by
    cases h
    apply reads_of_succ inside
    intro less _
    apply reads_byte_bind
    rw [Primitive.ofCode?_code]
    exact reads_pure _ _
  | .pointer t, _, _, h, budget, inside, position => by
    cases h with
    | pointer base =>
      apply reads_of_succ inside
      intro less inside
      have rest := (reads_type base inside (position + 1)).map TypeSig.pointer
      exact reads_byte_bind rest
  | .byReference t, _, _, h, budget, inside, position => by
    cases h with
    | byReference base =>
      apply reads_of_succ inside
      intro less inside
      have rest := (reads_type base inside (position + 1)).map TypeSig.byReference
      exact reads_byte_bind rest
  | .pinned t, _, _, h, budget, inside, position => by
    cases h with
    | pinned base =>
      apply reads_of_succ inside
      intro less inside
      have rest := (reads_type base inside (position + 1)).map TypeSig.pinned
      exact reads_byte_bind rest
  | .vector t, _, _, h, budget, inside, position => by
    cases h with
    | vector base =>
      apply reads_of_succ inside
      intro less inside
      have rest := (reads_type base inside (position + 1)).map TypeSig.vector
      exact reads_byte_bind rest
  | .classType _, _, _, h, budget, inside, position => by
    cases h with
    | classType named =>
      apply reads_of_succ inside
      intro less _
      have rest := (reads_typeToken named (position + 1)).map TypeSig.classType
      exact reads_byte_bind rest
  | .valueType _, _, _, h, budget, inside, position => by
    cases h with
    | valueType named =>
      apply reads_of_succ inside
      intro less _
      have rest := (reads_typeToken named (position + 1)).map TypeSig.valueType
      exact reads_byte_bind rest
  | .typeParameter number, _, _, h, budget, inside, position => by
    cases h with
    | typeParameter held =>
      apply reads_of_succ inside
      intro less _
      have rest := (reads_of_holds held (position + 1)).map fun n => TypeSig.typeParameter (.ofNat n)
      rw [UInt32.ofNat_toNat] at rest
      exact reads_byte_bind rest
  | .methodParameter number, _, _, h, budget, inside, position => by
    cases h with
    | methodParameter held =>
      apply reads_of_succ inside
      intro less _
      have rest := (reads_of_holds held (position + 1)).map fun n => TypeSig.methodParameter (.ofNat n)
      rw [UInt32.ofNat_toNat] at rest
      exact reads_byte_bind rest
  | .array t shape, _, _, h, budget, inside, position => by
    cases h with
    | @array _ bytes _ _ others element spelled =>
      apply reads_of_succ inside
      intro less inside
      have rest : Reads (do let t ← typeWithin less; return TypeSig.array t (← arrayShape)) (position + 1) (bytes ++ others)
          (TypeSig.array t shape) := by
        apply (reads_type element inside (position + 1)).bind
        exact (reads_arrayShape spelled _).map (TypeSig.array t)
      exact reads_byte_bind rest
  | .generic t ts, _, _, h, budget, inside, position => by
    cases h with
    | generic named nonempty base held arguments =>
      apply reads_of_succ inside
      intro less inside
      rcases Nat.max_le.mp inside with ⟨baseInside, argumentsInside⟩
      have rest := reads_genericRest named nonempty base.head? held (reads_type base baseInside)
        (reads_types arguments argumentsInside) (position + 1)
      exact reads_byte_bind rest
  | .function m, _, _, h, budget, inside, position => by
    cases h with
    | function method =>
      apply reads_of_succ inside
      intro less inside
      have rest := (reads_method method inside (position + 1)).map TypeSig.function
      exact reads_byte_bind rest
  | .modified required modifier t, _, _, h, budget, inside, position => by
    cases h with
    | @modified _ index bytes _ others _ named base =>
      apply reads_of_succ inside
      intro less inside
      have rest : Reads (modifiedRest (typeWithin less) required) (position + 1) (bytes ++ others) (.modified required index.token t) := by
        apply (reads_typeToken named (position + 1)).bind
        exact (reads_type base inside _).map (TypeSig.modified required index.token)
      cases required with
      | true => exact reads_byte_bind rest
      | false => exact reads_byte_bind rest

theorem reads_method : ∀ {m : MethodSig} {bytes names}, m.Spelled bytes names → ∀ {budget}, m.depth ≤ budget → ∀ position,
    Reads (methodWith (typeWithin budget)) position bytes m
  | ⟨_, _, _, _, _, _, _⟩, _, _, h, budget, inside, position => by
    cases h with
    | intro headed counted held returns parameters extra =>
      rcases Nat.max_le.mp inside with ⟨returnsInside, others⟩
      rcases Nat.max_le.mp others with ⟨parametersInside, extraInside⟩
      exact reads_methodWith headed counted held (reads_type returns returnsInside) (reads_types parameters parametersInside)
        (reads_types extra extraInside) position

theorem reads_types : ∀ {ts : List TypeSig} {bytes names}, TypeSig.AllSpelled ts bytes names → ∀ {budget},
    TypeSig.depthOfAll ts ≤ budget → ∀ position, ReadsAll (typeWithin budget) position bytes ts
  | [], _, _, h, budget, _, position => by
    cases h
    exact .nil position
  | t :: ts, _, _, h, budget, inside, position => by
    cases h with
    | cons first others =>
      rcases Nat.max_le.mp inside with ⟨firstInside, othersInside⟩
      exact .cons (reads_type first firstInside position) (reads_types others othersInside _)

end

end SignatureReader

end CilWeaver
