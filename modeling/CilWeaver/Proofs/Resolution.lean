import CilWeaver.Module.Reading
import CilWeaver.Proofs.Steps

/-!
Resolving with a look-up that is a function: the definitions are its answers, and neither the
definitions nor the members of types matter for what a module refers to.
-/

namespace CilWeaver

open Step

/-- What a function answers about a reference, which may stand for nothing in another assembly. -/
def Symbol.answer? (f : Symbol → Result Symbol) (reference? : Option Symbol) : Option Symbol :=
  reference?.bind fun reference => (f reference).toOption

/-- A function has an answer about each reference. -/
def Symbol.Answered (f : Symbol → Result Symbol) (references : List (Option Symbol)) : Prop :=
  ∀ reference, some reference ∈ references → ∃ definition, f reference = .ok definition

namespace Module

variable {f : Symbol → Result Symbol}

theorem resolveOne_eq_ok {reference definition : Symbol} {s s' : Unit} :
    resolveOne (Lookup.ofFunction f) reference s = .ok definition s' ↔ f reference = .ok definition := by
  unfold resolveOne Lookup.ofFunction
  cases f reference with
  | ok answer =>
    constructor
    · intro h
      cases h
      rfl
    · intro h
      cases h
      rfl
  | error e => exact ⟨fun h => (by cases h), fun h => (by cases h)⟩

theorem resolveAll_eq_ok {references definitions : List (Option Symbol)} {s s' : Unit} :
    resolveAll (Lookup.ofFunction f) references s = .ok definitions s' ↔
      Symbol.Answered f references ∧ definitions = references.map (Symbol.answer? f) := by
  unfold resolveAll Symbol.Answered
  induction references generalizing definitions with
  | nil =>
    rw [List.mapM_nil, pure_eq_ok]
    constructor
    · rintro ⟨rfl, -⟩
      exact ⟨fun _ member => absurd member List.not_mem_nil, rfl⟩
    · rintro ⟨-, rfl⟩
      exact ⟨rfl, rfl⟩
  | cons reference? references ih =>
    rw [List.mapM_cons, bind_eq_ok]
    constructor
    · rintro ⟨first?, s₁, first, others⟩
      obtain ⟨rest, s₂, more, last⟩ := bind_eq_ok.mp others
      obtain ⟨rfl, -⟩ := pure_eq_ok.mp last
      obtain ⟨answered, rfl⟩ := ih.mp more
      cases reference? with
      | none =>
        obtain ⟨rfl, -⟩ := pure_eq_ok.mp first
        refine ⟨fun reference member => ?_, rfl⟩
        exact answered reference ((List.mem_cons.mp member).resolve_left (Option.some_ne_none _))
      | some reference =>
        change (some <$> resolveOne (Lookup.ofFunction f) reference) s = _ at first
        rw [map_apply] at first
        split at first
        · rename_i definition s₃ found
          cases first
          have own := resolveOne_eq_ok.mp found
          refine ⟨fun other member => ?_, ?_⟩
          · rcases List.mem_cons.mp member with same | member
            · cases same
              exact ⟨definition, own⟩
            · exact answered other member
          · rw [List.map_cons, Symbol.answer?, Option.bind_some, own]
            rfl
        · cases first
    · rintro ⟨answered, rfl⟩
      have more := ih.mpr ⟨fun other member => answered other (List.mem_cons_of_mem _ member), rfl⟩
      cases reference? with
      | none => exact ⟨none, s, rfl, bind_eq_ok.mpr ⟨_, s', more, rfl⟩⟩
      | some reference =>
        obtain ⟨definition, own⟩ := answered reference List.mem_cons_self
        have found : resolveOne (Lookup.ofFunction f) reference s = .ok definition s := resolveOne_eq_ok.mpr own
        refine ⟨some definition, s, ?_, bind_eq_ok.mpr ⟨_, s', more, ?_⟩⟩
        · change (some <$> resolveOne (Lookup.ofFunction f) reference) s = _
          rw [map_apply, found]
        · rw [List.map_cons, Symbol.answer?, Option.bind_some, own]
          rfl

/-- The module whose references have these definitions. -/
def withDefinitions (m : Module) (types members : List (Option Symbol)) : Module :=
  { m with
    typeRefs := m.typeRefs.zipWith (fun r definition? => { r with definition? }) types
    memberRefs := m.memberRefs.zipWith (fun r definition? => { r with definition? }) members }

theorem length_of_references {m : Module} {types members : List (Option Symbol)}
    (h : m.references = .ok (types, members)) :
    types.length = m.typeRefs.length ∧ members.length = m.memberRefs.length := by
  unfold references at h
  obtain ⟨typeNames, named, h⟩ := Outcome.bind_eq_ok.mp h
  obtain ⟨memberNames, listed, h⟩ := Outcome.bind_eq_ok.mp h
  obtain ⟨rfl, rfl⟩ := Prod.mk.inj (Outcome.pure_eq_ok.mp h)
  have types := (Outcome.mapM_eq_ok.mp named).length_eq
  have members := (Outcome.mapM_eq_ok.mp listed).length_eq
  rw [List.length_range] at types
  rw [List.length_map, List.length_map]
  exact ⟨types.symm, members.symm⟩

/-- Resolving a module answers the module with the answers of the function, if it has them all. -/
theorem resolve_eq_ok {m found : Module} {s s' : Unit} :
    resolve (Lookup.ofFunction f) m s = .ok found s' ↔ ∃ types members, m.references = .ok (types, members) ∧
      Symbol.Answered f types ∧ Symbol.Answered f members ∧
        found = m.withDefinitions (types.map (Symbol.answer? f)) (members.map (Symbol.answer? f)) := by
  unfold resolve
  cases references : m.references with
  | error e =>
    constructor
    · intro h
      exact absurd h throw_ne_ok
    · rintro ⟨types, members, h, -⟩
      cases h
  | ok found =>
    obtain ⟨types, members⟩ := found
    dsimp only
    rw [bind_eq_ok]
    constructor
    · rintro ⟨typeAnswers, s₁, first, others⟩
      obtain ⟨memberAnswers, s₂, second, last⟩ := bind_eq_ok.mp others
      obtain ⟨answeredTypes, rfl⟩ := resolveAll_eq_ok.mp first
      obtain ⟨answeredMembers, rfl⟩ := resolveAll_eq_ok.mp second
      exact ⟨types, members, rfl, answeredTypes, answeredMembers, (pure_eq_ok.mp last).1.symm⟩
    · rintro ⟨types, members, same, answeredTypes, answeredMembers, rfl⟩
      cases same
      exact ⟨_, s, resolveAll_eq_ok.mpr ⟨answeredTypes, rfl⟩,
        bind_eq_ok.mpr ⟨_, s, resolveAll_eq_ok.mpr ⟨answeredMembers, rfl⟩, rfl⟩⟩

end Module

/-- The reference without its definition. -/
def TypeRef.plain (r : TypeRef) : TypeRef := { r with definition? := none }

def MemberRef.plain (r : MemberRef) : MemberRef := { r with definition? := none }

namespace Module

/-- Two modules refer to the same things by the same names. -/
structure SameNames (m m' : Module) : Prop where
  assemblyRefs : m.assemblyRefs = m'.assemblyRefs
  typeRefs : m.typeRefs.map TypeRef.plain = m'.typeRefs.map TypeRef.plain
  memberRefs : m.memberRefs.map MemberRef.plain = m'.memberRefs.map MemberRef.plain
  types : m.types.map TypeDef.fullName = m'.types.map TypeDef.fullName

theorem map_rowOf? {α β : Type} (g : α → β) (items : List α) (row : Nat) :
    (rowOf? items row).map g = rowOf? (items.map g) row := by
  cases row with
  | zero => rfl
  | succ row => exact (List.getElem?_map ..).symm

theorem rowOf?_of_forall₂ {α β : Type} {R : α → β → Prop} {as : List α} {bs : List β} (all : List.Forall₂ R as bs)
    (row : Nat) : Option.Rel R (rowOf? as row) (rowOf? bs row) := by
  cases row with
  | zero => exact .none
  | succ row =>
    change Option.Rel R as[row]? bs[row]?
    induction all generalizing row with
    | nil => exact .none
    | cons related _ ih =>
      cases row with
      | zero => exact .some related
      | succ row => simpa using ih row

variable {m m' : Module}

theorem SameNames.typeRef (same : m.SameNames m') (row : Nat) :
    (rowOf? m.typeRefs row).map TypeRef.plain = (rowOf? m'.typeRefs row).map TypeRef.plain := by
  rw [map_rowOf?, map_rowOf?, same.typeRefs]

/-- A reference is missing from both modules, or they have it up to its definition. -/
theorem SameNames.typeRef_cases (same : m.SameNames m') (row : Nat) :
    (rowOf? m.typeRefs row = none ∧ rowOf? m'.typeRefs row = none) ∨
      ∃ r definition?, rowOf? m.typeRefs row = some r ∧ rowOf? m'.typeRefs row = some { r with definition? } := by
  have equal := same.typeRef row
  cases left : rowOf? m.typeRefs row with
  | none =>
    rw [left] at equal
    exact .inl ⟨rfl, Option.map_eq_none_iff.mp equal.symm⟩
  | some r =>
    rw [left, Option.map_some] at equal
    obtain ⟨r', right, plain⟩ := Option.map_eq_some_iff.mp equal.symm
    refine .inr ⟨r, r'.definition?, rfl, ?_⟩
    rw [right]
    cases r
    cases r'
    cases plain
    rfl

theorem SameNames.typeReferenceWithin (same : m.SameNames m') (token : Token) (names : List String) (fuel : Nat)
    (current : Token) :
    m.typeReferenceWithin token names fuel current = m'.typeReferenceWithin token names fuel current := by
  induction fuel generalizing names current with
  | zero => rfl
  | succ fuel ih =>
    rw [Module.typeReferenceWithin, Module.typeReferenceWithin]
    rcases same.typeRef_cases current.row with ⟨left, right⟩ | ⟨r, definition?, left, right⟩
    · rw [left, right]
    · simp only [left, right, ih, same.assemblyRefs]

theorem SameNames.typeReferences (same : m.SameNames m') : m.typeReferences = m'.typeReferences := by
  have count := congrArg List.length same.typeRefs
  rw [List.length_map, List.length_map] at count
  unfold Module.typeReferences Module.typeReference
  rw [count]
  congr 1
  funext i
  exact same.typeReferenceWithin _ _ _ _

theorem SameNames.typeNameWithin (same : m.SameNames m') (fuel : Nat) (token : Token) :
    m.typeNameWithin fuel token = m'.typeNameWithin fuel token := by
  induction fuel generalizing token with
  | zero => rfl
  | succ fuel ih =>
    rw [Module.typeNameWithin, Module.typeNameWithin]
    rcases same.typeRef_cases token.row with ⟨left, right⟩ | ⟨r, definition?, left, right⟩
    · simp only [left, right, map_rowOf?, same.types]
      rfl
    · simp only [left, right, map_rowOf?, same.types, ih]
      rfl

theorem SameNames.memberReference (same : m.SameNames m') (types : List (Option TypeName)) (r : MemberRef) :
    m.memberReference types r = m'.memberReference types r.plain := by
  have names : m.signatureName = m'.signatureName := by
    funext type
    unfold Module.signatureName Module.typeName?
    rw [same.typeNameWithin]
  unfold Module.memberReference Module.memberSignature
  rw [names]
  rfl

/-- What a module refers to does not depend on definitions and members. -/
theorem SameNames.references (same : m.SameNames m') : m.references = m'.references := by
  have members : ∀ types, m.memberRefs.mapM (m.memberReference types) =
      m'.memberRefs.mapM (m'.memberReference types) := by
    intro types
    have plain : ∀ {n n' : Module} (refs : List MemberRef), n.SameNames n' → refs.mapM (n.memberReference types) =
        (refs.map MemberRef.plain).mapM (n'.memberReference types) := by
      intro n n' refs alike
      rw [List.mapM_map]
      congr 1
      funext r
      exact alike.memberReference types r
    rw [plain _ same, same.memberRefs, ← plain _ ⟨rfl, rfl, rfl, rfl⟩]
  unfold Module.references
  rw [same.typeReferences]
  simp only [members]

theorem map_zipWith_left {α β γ : Type} {f : α → β → α} {g : α → γ} (same : ∀ a b, g (f a b) = g a) {as : List α}
    {bs : List β} (count : bs.length = as.length) : (as.zipWith f bs).map g = as.map g := by
  induction as generalizing bs with
  | nil => rfl
  | cons a as ih =>
    cases bs with
    | nil => cases count
    | cons b bs =>
      rw [List.zipWith_cons_cons, List.map_cons, List.map_cons, same, ih (Nat.succ.inj count)]

/-- Definitions do not change names. -/
theorem sameNames_withDefinitions {types members : List (Option Symbol)} (typeCount : types.length = m.typeRefs.length)
    (memberCount : members.length = m.memberRefs.length) : (m.withDefinitions types members).SameNames m := by
  have typeRefs : (m.typeRefs.zipWith (fun r definition? => { r with definition? }) types).map TypeRef.plain =
      m.typeRefs.map TypeRef.plain := by
    apply map_zipWith_left _ typeCount
    exact fun _ _ => rfl
  have memberRefs : (m.memberRefs.zipWith (fun r definition? => { r with definition? }) members).map MemberRef.plain =
      m.memberRefs.map MemberRef.plain := by
    apply map_zipWith_left _ memberCount
    exact fun _ _ => rfl
  exact ⟨rfl, typeRefs, memberRefs, rfl⟩

end Module

end CilWeaver
