import CilWeaver.Proofs.StrictReading

/-!
The two names of a reference to a type: the type of another assembly that it stands for, found by following its scopes
outwards, and its full name, put together from the outermost scope inwards. They agree, and both are missing for the same
references, those that are nested too deep. Scopes that form a cycle are among them.
-/

namespace CilWeaver

theorem qualifiedName_nested (namespaceName outer inner : String) :
    qualifiedName namespaceName (outer ++ "/" ++ inner) = qualifiedName namespaceName outer ++ "/" ++ inner := by
  unfold qualifiedName
  split
  · rfl
  · simp only [String.append_assoc]

namespace Module

variable {m : Module} {depth fuel row : Nat} {token : Token} {type? : Option TypeName}

/-- The reference in a row is nested in so many others at least. -/
inductive NestedIn (m : Module) : (depth row : Nat) → Prop
  | here {row : Nat} : NestedIn m 0 row
  | further {depth row : Nat} {r : TypeRef} : rowOf? m.typeRefs row = some r → r.scope.isIn .typeRef = true →
    NestedIn m depth r.scope.row → NestedIn m (depth + 1) row

theorem nestedIn_succ {r : TypeRef} (own : rowOf? m.typeRefs row = some r) :
    m.NestedIn (depth + 1) row ↔ r.scope.isIn .typeRef = true ∧ m.NestedIn depth r.scope.row := by
  constructor
  · intro nested
    cases nested with
    | further own' scope rest =>
      cases Option.some.inj (own.symm.trans own')
      exact ⟨scope, rest⟩
  · exact fun ⟨scope, rest⟩ => .further own scope rest

/-- A chain of scopes that ends in an assembly or in the module is as long as the reference is nested. -/
theorem StandsFor.nestedIn_iff (stands : m.StandsFor depth row type?) (n : Nat) : m.NestedIn n row ↔ n ≤ depth := by
  induction stands generalizing n with
  | inside own scope =>
    cases n with
    | zero => exact ⟨fun _ => Nat.le_refl 0, fun _ => .here⟩
    | succ n => simp [nestedIn_succ own, isIn_eq_false scope]
  | outside own scope _ =>
    cases n with
    | zero => exact ⟨fun _ => Nat.le_refl 0, fun _ => .here⟩
    | succ n => simp [nestedIn_succ own, isIn_eq_false scope]
  | nested own scope _ ih =>
    cases n with
    | zero => exact ⟨fun _ => Nat.zero_le _, fun _ => .here⟩
    | succ n => simp [nestedIn_succ own, scope, ih]

/-! The type that a reference stands for -/

theorem NestedIn.within (nested : m.NestedIn fuel row) (names : List String) {current : Token} (same : current.row = row) :
    m.typeReferenceWithin token names fuel current = .error (.malformed (.scopeTooDeep token maxNesting)) := by
  induction nested generalizing names current with
  | here => rfl
  | further own scope _ ih =>
    rw [typeReferenceWithin, same, own]
    simp only [scope, if_true]
    exact ih _ rfl

theorem nestedIn_of_within {names : List String} {current : Token}
    (failed : m.typeReferenceWithin token names fuel current = .error (.malformed (.scopeTooDeep token maxNesting))) :
    m.NestedIn fuel current.row := by
  induction fuel generalizing names current with
  | zero => exact .here
  | succ fuel ih =>
    rw [typeReferenceWithin] at failed
    cases own : rowOf? m.typeRefs current.row with
    | none =>
      rw [own] at failed
      cases failed
    | some r =>
      rw [own] at failed
      dsimp only at failed
      split at failed
      · rename_i scope
        exact .further own scope (ih failed)
      · split at failed
        · cases failed
        · split at failed
          · cases failed
          · cases failed

theorem typeReference_eq_tooDeep : m.typeReference token = .error (.malformed (.scopeTooDeep token maxNesting)) ↔
    m.NestedIn (maxNesting + 1) token.row :=
  ⟨nestedIn_of_within, fun nested => nested.within [] rfl⟩

/-! Its full name -/

theorem typeNameWithin_succ (named : token.isIn .typeRef = true) : m.typeNameWithin (fuel + 1) token =
    (rowOf? m.typeRefs token.row).bind fun r =>
      if r.scope.isIn .typeRef then (m.typeNameWithin fuel r.scope).map fun around => around ++ "/" ++ r.name
      else some (qualifiedName r.namespaceName r.name) := by
  rw [typeNameWithin, Token.table?_of_isIn named]
  cases rowOf? m.typeRefs token.row with
  | none => rfl
  | some r =>
    change (if _ then _ else _) = _
    split
    · rw [Option.bind_some, if_pos ‹_›]
      cases m.typeNameWithin fuel r.scope <;> rfl
    · rw [Option.bind_some, if_neg ‹_›]
      rfl

/-- Where all scopes are rows of the module, only what is nested too deep has no name. -/
theorem typeNameWithin_eq_none (scopes : ∀ r ∈ m.typeRefs, m.contains r.scope = true) (named : token.isIn .typeRef = true)
    (contained : m.contains token = true) : m.typeNameWithin fuel token = none ↔ m.NestedIn fuel token.row := by
  induction fuel generalizing token with
  | zero => exact ⟨fun _ => .here, fun _ => rfl⟩
  | succ fuel ih =>
    have rows := row_of_contains contained named
    obtain ⟨r, own⟩ := Option.isSome_iff_exists.mp (isSome_rowOf? rows.1 rows.2)
    rw [typeNameWithin_succ named, nestedIn_succ own, own, Option.bind_some]
    -- the scope is a row of the module again, so that the name of the outer type can only be missing for its depth
    by_cases scope : r.scope.isIn .typeRef = true
    · rw [if_pos scope, Option.map_eq_none_iff, ih scope (scopes r (mem_of_rowOf? own))]
      exact (and_iff_right scope).symm
    · rw [if_neg scope]
      simp [scope]

/-- The name of a type of another assembly is the full name of what the reference stands for. -/
theorem StandsFor.typeName (stands : m.StandsFor depth row type?) (enough : depth < fuel) (named : token.isIn .typeRef = true)
    (same : token.row = row) : ∃ name, m.typeNameWithin fuel token = some name ∧ ∀ t ∈ type?, name = t.fullName := by
  induction stands generalizing fuel token with
  | inside own scope =>
    obtain ⟨fuel, rfl⟩ := Nat.exists_eq_add_one_of_ne_zero (Nat.ne_of_gt enough)
    rw [typeNameWithin_succ named, same, own, Option.bind_some, isIn_eq_false scope (by decide)]
    exact ⟨_, rfl, fun t none => by cases none⟩
  | outside own scope assembly =>
    obtain ⟨fuel, rfl⟩ := Nat.exists_eq_add_one_of_ne_zero (Nat.ne_of_gt enough)
    rw [typeNameWithin_succ named, same, own, Option.bind_some, isIn_eq_false scope (by decide)]
    refine ⟨_, rfl, fun t found => ?_⟩
    cases Option.mem_some_iff.mp found
    rfl
  | @nested depth row r around? own scope _ ih =>
    obtain ⟨fuel, rfl⟩ := Nat.exists_eq_add_one_of_ne_zero (Nat.ne_of_gt (Nat.zero_lt_of_lt enough))
    obtain ⟨around, found, full⟩ := ih (Nat.lt_of_succ_lt_succ enough) scope rfl
    rw [typeNameWithin_succ named, same, own, Option.bind_some, if_pos scope, found]
    refine ⟨_, rfl, fun t nested => ?_⟩
    obtain ⟨outer, own, rfl⟩ := Option.map_eq_some_iff.mp nested
    rw [full outer own]
    exact (qualifiedName_nested _ _ _).symm

/-! Cycles of scopes -/

/-- The scope of the reference in one row is the reference in the other row. -/
def Around (m : Module) (row outer : Nat) : Prop :=
  ∃ r, rowOf? m.typeRefs row = some r ∧ r.scope.isIn .typeRef = true ∧ r.scope.row = outer

theorem Around.nestedIn {outer : Nat} (around : m.Around row outer) (nested : m.NestedIn depth outer) :
    m.NestedIn (depth + 1) row := by
  obtain ⟨r, own, scope, rfl⟩ := around
  exact .further own scope nested

theorem NestedIn.less (nested : m.NestedIn (depth + 1) row) : m.NestedIn depth row := by
  induction depth generalizing row with
  | zero => exact .here
  | succ depth ih =>
    cases nested with
    | further own scope rest => exact .further own scope (ih rest)

theorem nestedIn_of_leads {inner : Nat} (leads : Relation.ReflTransGen m.Around row inner) (nested : m.NestedIn depth inner) :
    m.NestedIn depth row := by
  induction leads using Relation.ReflTransGen.head_induction_on with
  | refl => exact nested
  | head around _ ih => exact (around.nestedIn ih).less

/-- A cycle of scopes has no end. -/
theorem nestedIn_of_cycle (cycle : Relation.TransGen m.Around row row) (n : Nat) : m.NestedIn n row := by
  induction n with
  | zero => exact .here
  | succ n ih =>
    -- the next row on the cycle leads back here, so it is nested in as many as the induction says of this row
    obtain ⟨outer, around, back⟩ := Relation.TransGen.head'_iff.mp cycle
    exact around.nestedIn (nestedIn_of_leads back ih)

/-! Together -/

theorem contains_of_row (named : token.isIn .typeRef = true) {r : TypeRef} (own : rowOf? m.typeRefs token.row = some r) :
    m.contains token = true := by
  obtain ⟨first, last⟩ := ModuleImage.row_le_of_rowOf? own
  unfold contains
  rw [Token.table?_of_isIn named]
  simpa using ⟨first, last⟩

theorem one_le_row_of_contains (contained : m.contains token = true) : 1 ≤ token.row := by
  unfold contains at contained
  cases shape : token.table? with
  | none =>
    rw [shape] at contained
    cases contained
  | some t =>
    simp only [shape, Bool.and_eq_true, decide_eq_true_eq] at contained
    exact contained.1

section

variable (scopes : ∀ r ∈ m.typeRefs, m.contains r.scope = true) (named : token.isIn .typeRef = true)

include scopes

theorem assemblyRef_of_scope {r : TypeRef} (member : r ∈ m.typeRefs) (scope : r.scope.isIn .assemblyRef = true) :
    1 ≤ r.scope.row ∧ r.scope.row ≤ m.assemblyRefs.length := row_of_contains (scopes r member) scope

include named

theorem tooDeep_iff (contained : m.contains token = true) :
    m.typeReference token = .error (.malformed (.scopeTooDeep token maxNesting)) ↔ m.typeName? token = none :=
  typeReference_eq_tooDeep.trans (typeNameWithin_eq_none scopes named contained).symm

theorem typeName_of_typeReference {t : TypeName} (found : m.typeReference token = .ok (some t)) :
    m.typeName? token = some t.fullName := by
  have present (r) (member : r ∈ m.typeRefs) (scope : r.scope.isIn .assemblyRef = true) :
      (rowOf? m.assemblyRefs r.scope.row).isSome = true := by
    obtain ⟨first, last⟩ := assemblyRef_of_scope scopes member scope
    exact isSome_rowOf? first last
  obtain ⟨depth, type?, enough, stands⟩ := standsFor_of_within present found
  obtain ⟨name, full, same⟩ := stands.typeName enough named rfl
  have known : m.typeReference token = _ := stands.within token [] enough rfl
  rw [found] at known
  cases type? with
  | none => cases known
  | some type =>
    cases known
    exact full.trans (congrArg some (same type rfl))

end

/-- Both ways of naming a reference come to an end, whatever its scopes are. Where the first one finds a type, the other
one gives its full name, and the first one stops at the limit iff the other one has no name: beyond the limit, the
latter for chains that end as well as for cycles. -/
theorem typeReference_agrees (scopes : ∀ r ∈ m.typeRefs, m.contains r.scope = true) (named : token.isIn .typeRef = true) :
    m.strictTypeNameAt 0 token = some (m.typeName? token) ∧
    (1 ≤ token.row →
      (m.strictTypeReferenceWithin token [] (maxNesting + 1) token).Gives (m.typeReference token)) ∧
    (∀ t, m.typeReference token = .ok (some t) → m.typeName? token = some t.fullName) ∧
    (m.contains token = true →
      (m.typeReference token = .error (.malformed (.scopeTooDeep token maxNesting)) ↔ m.typeName? token = none)) ∧
    (∀ depth type?, m.StandsFor depth token.row type? →
      (m.typeReference token = .error (.malformed (.scopeTooDeep token maxNesting)) ↔ m.typeName? token = none) ∧
      (m.typeName? token = none ↔ maxNesting < depth)) ∧
    ∀ inner, Relation.ReflTransGen m.Around token.row inner → Relation.TransGen m.Around inner inner →
      m.typeReference token = .error (.malformed (.scopeTooDeep token maxNesting)) ∧ m.typeName? token = none := by
  refine ⟨strictTypeNameAt_eq (Nat.zero_add _) token, fun row => ?_, fun t => typeName_of_typeReference scopes named,
    tooDeep_iff scopes named, fun depth type? stands => ?_, fun inner leads cycle => ?_⟩
  · exact gives_typeReferenceWithin (fun r member => one_le_row_of_contains (scopes r member))
      (fun r member scope => (assemblyRef_of_scope scopes member scope).2) token [] _ row
  · obtain ⟨r, own⟩ := stands.exists_row
    have contained := contains_of_row named own
    exact ⟨tooDeep_iff scopes named contained, (typeNameWithin_eq_none scopes named contained).trans (stands.nestedIn_iff _)⟩
  · have nested := nestedIn_of_leads leads (nestedIn_of_cycle cycle (maxNesting + 1))
    have tooDeep := typeReference_eq_tooDeep.mpr nested
    cases nested with
    | further own _ _ => exact ⟨tooDeep, (tooDeep_iff scopes named (contains_of_row named own)).mp tooDeep⟩

end Module

namespace Sample

/-- A type of another assembly, a type inside of it, and a reference that is its own scope. -/
def nested : Module :=
  { name := "Test"
    assemblyRefs := [⟨"System.Runtime", ⟨8, 0, 0, 0⟩, 0, [], "", []⟩]
    typeRefs :=
      [{ scope := ⟨0x23000001⟩, namespaceName := "System", name := "Environment" },
        { scope := ⟨0x01000001⟩, namespaceName := "", name := "SpecialFolder" },
        { scope := ⟨0x01000003⟩, namespaceName := "", name := "Loop" }] }

theorem contains_nested : ∀ r ∈ nested.typeRefs, nested.contains r.scope = true := by decide +kernel

end Sample

namespace Module

theorem typeReference_agrees_sample :
    Sample.nested.typeName? ⟨0x01000002⟩ = some "System.Environment/SpecialFolder" ∧
    Sample.nested.typeReference ⟨0x01000003⟩ = .error (.malformed (.scopeTooDeep ⟨0x01000003⟩ maxNesting)) ∧
    Sample.nested.typeName? ⟨0x01000003⟩ = none := by
  obtain ⟨-, -, full, -⟩ := typeReference_agrees Sample.contains_nested
    (by decide : Token.isIn ⟨0x01000002⟩ .typeRef = true)
  obtain ⟨-, -, -, -, -, cycles⟩ := typeReference_agrees Sample.contains_nested
    (by decide : Token.isIn ⟨0x01000003⟩ .typeRef = true)
  have own : Sample.nested.Around 3 3 := ⟨_, rfl, by decide, by decide⟩
  exact ⟨full ⟨"System.Runtime", "System", "Environment/SpecialFolder"⟩ (by decide +kernel), cycles 3 .refl (.single own)⟩

end Module

end CilWeaver
