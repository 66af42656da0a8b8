import CilWeaver.Proofs.ReadFailures
import CilWeaver.Proofs.ReadReferences

/-!
What references stand for. The scope of a reference to a type is another assembly, the module itself, or the reference to
the type around it, so scopes form chains; those that can be followed are not longer than names may nest.
-/

namespace CilWeaver

open Outcome

namespace Outcome

theorem mapM_ends_iff {ε α β : Type} {f : α → Except ε β} {items : List α} :
    (∃ results, items.mapM f = .ok results) ↔ ∀ a ∈ items, ∃ b, f a = .ok b := by
  constructor
  · rintro ⟨results, h⟩ a member
    obtain ⟨b, -, found⟩ := forall₂_of_mem (mapM_eq_ok.mp h) member
    exact ⟨b, found⟩
  · intro each
    cases result : items.mapM f with
    | ok results => exact ⟨results, rfl⟩
    | error e =>
      obtain ⟨earlier, a, later, rfl, -, failed⟩ := mapM_eq_error.mp result
      obtain ⟨b, found⟩ := each a (by simp)
      cases failed.symm.trans found

end Outcome

namespace Module

/-- The rows that references go by are rows of the module. -/
structure Referable (m : Module) : Prop where
  count : m.typeRefs.length ≤ maxRows
  scopes : ∀ r ∈ m.typeRefs, 1 ≤ r.scope.row
  assemblies : ∀ r ∈ m.typeRefs, r.scope.isIn .assemblyRef = true → r.scope.row ≤ m.assemblyRefs.length
  parents : ∀ r ∈ m.memberRefs, 1 ≤ r.parent.row

theorem row_le_of_contains {image : ModuleImage} {token : Token} (contained : image.contains token = true) :
    1 ≤ token.row ∧ ∀ t, token.isIn t = true → token.row ≤ image.layout.rows t := by
  unfold ModuleImage.contains at contained
  cases shape : token.table? with
  | none =>
    rw [shape] at contained
    cases contained
  | some own =>
    simp only [shape, Bool.and_eq_true, decide_eq_true_eq] at contained
    refine ⟨contained.1, fun t named => ?_⟩
    cases shape.symm.trans (Token.table?_of_isIn named)
    exact contained.2

theorem referable_of_ofImages {name : String} {maxBodySize : Nat} {code : Bytes} {symbols? : Option Bytes} {m : Module}
    (read : ofImages name maxBodySize code symbols? = .ok m) : m.Referable := by
  obtain ⟨image, given?, plain, parts⟩ := readFrom_of_ofImages read
  obtain ⟨runs, reads⟩ := ModuleImage.readsModule parts.module
  have referring := ModuleImage.referring_of_parse parts.parsed
  have bounded := ModuleImage.bounded_of_parse code image parts.parsed
  have typeRefs : m.typeRefs.length = image.typeRefs.length :=
    (parts.rows_eq (t := .typeRef) (by decide)).trans reads.typeRefs.length_eq.symm
  have assemblyRefs : m.assemblyRefs.length = image.assemblyRefs.length :=
    (parts.rows_eq (t := .assemblyRef) (by decide)).trans reads.assemblyRefs.length_eq.symm
  refine ⟨typeRefs ▸ bounded.typeRefs, fun r member => ?_, fun r member named => ?_, fun r member => ?_⟩
  · obtain ⟨row, inImage, same⟩ := parts.scope_of r member
    exact same ▸ (row_le_of_contains (referring.scopes row inImage)).1
  · obtain ⟨row, inImage, same⟩ := parts.scope_of r member
    have within := (row_le_of_contains (referring.scopes row inImage)).2 .assemblyRef (same ▸ named)
    rw [ModuleImage.counted_of_parse parts.parsed] at within
    rw [assemblyRefs, same]
    exact within
  · obtain ⟨row, inImage, same⟩ := parts.parent_of r member
    exact same ▸ (row_le_of_contains (referring.parents row inImage)).1

/-- The type of another assembly that the reference in a row stands for, or none if it stands for a type of the module
itself. The chain of its scopes passes so many other references. -/
inductive StandsFor (m : Module) : (depth row : Nat) → Option TypeName → Prop
  | inside {row : Nat} {r : TypeRef} : rowOf? m.typeRefs row = some r → r.scope.isIn .module = true →
    StandsFor m 0 row none
  | outside {row : Nat} {r : TypeRef} {a : AssemblyRef} : rowOf? m.typeRefs row = some r →
    r.scope.isIn .assemblyRef = true → rowOf? m.assemblyRefs r.scope.row = some a →
      StandsFor m 0 row (some ⟨a.name, r.namespaceName, r.name⟩)
  | nested {depth row : Nat} {r : TypeRef} {around? : Option TypeName} : rowOf? m.typeRefs row = some r →
    r.scope.isIn .typeRef = true → StandsFor m depth r.scope.row around? →
      StandsFor m (depth + 1) row (around?.map fun t => { t with name := t.name ++ "/" ++ r.name })

variable {m : Module} {depth row : Nat} {type? : Option TypeName}

theorem isIn_unique {token : Token} {t u : Table} (one : token.isIn t = true) (two : token.isIn u = true) : t = u := by
  rw [← Option.some_inj, ← Token.table?_of_isIn one, Token.table?_of_isIn two]

theorem isIn_eq_false {token : Token} {t u : Table} (one : token.isIn t = true) (other : t ≠ u) : token.isIn u = false := by
  by_contra two
  exact other (isIn_unique one (by simpa using two))

theorem mem_of_rowOf? {α : Type} {items : List α} {a : α} (h : rowOf? items row = some a) : a ∈ items := by
  cases row with
  | zero => cases h
  | succ row => exact List.mem_of_getElem? h

theorem isSome_rowOf? {α : Type} {items : List α} (first : 1 ≤ row) (last : row ≤ items.length) :
    (rowOf? items row).isSome = true := by
  cases row with
  | zero => cases first
  | succ row => simpa [rowOf?] using last

/-- The names of the references that were passed come behind the name that is found. -/
theorem StandsFor.within (stands : m.StandsFor depth row type?) (token : Token) (names : List String) {fuel : Nat}
    (enough : depth < fuel) {current : Token} (same : current.row = row) :
    m.typeReferenceWithin token names fuel current =
      .ok (type?.map fun t => { t with name := "/".intercalate (t.name :: names) }) := by
  induction stands generalizing names fuel current with
  | inside own scope =>
    obtain ⟨fuel, rfl⟩ := Nat.exists_eq_add_one_of_ne_zero (Nat.ne_of_gt enough)
    rw [typeReferenceWithin, same, own]
    simp [scope, isIn_eq_false scope]
  | outside own scope assembly =>
    obtain ⟨fuel, rfl⟩ := Nat.exists_eq_add_one_of_ne_zero (Nat.ne_of_gt enough)
    rw [typeReferenceWithin, same, own]
    simp [scope, isIn_eq_false scope, assembly]
  | nested own scope _ ih =>
    obtain ⟨fuel, rfl⟩ := Nat.exists_eq_add_one_of_ne_zero (Nat.ne_of_gt (Nat.zero_lt_of_lt enough))
    rw [typeReferenceWithin, same, own]
    simp only [scope, if_true]
    rw [ih _ (Nat.lt_of_succ_lt_succ enough) rfl, Option.map_map]
    rfl

theorem standsFor_of_within (assemblies : ∀ r ∈ m.typeRefs, r.scope.isIn .assemblyRef = true →
      (rowOf? m.assemblyRefs r.scope.row).isSome = true) {token : Token} {names : List String} {fuel : Nat} {current : Token}
    {found? : Option TypeName} (h : m.typeReferenceWithin token names fuel current = .ok found?) :
    ∃ depth type?, depth < fuel ∧ m.StandsFor depth current.row type? := by
  induction fuel generalizing names current with
  | zero => cases h
  | succ fuel ih =>
    rw [typeReferenceWithin] at h
    cases own : rowOf? m.typeRefs current.row with
    | none =>
      rw [own] at h
      cases h
    | some r =>
      rw [own] at h
      dsimp only at h
      split at h
      · rename_i scope
        obtain ⟨depth, around?, enough, stands⟩ := ih h
        exact ⟨depth + 1, _, Nat.succ_lt_succ enough, .nested own scope stands⟩
      · split at h
        · rename_i scope
          obtain ⟨a, assembly⟩ := Option.isSome_iff_exists.mp (assemblies r (mem_of_rowOf? own) scope)
          exact ⟨0, _, Nat.zero_lt_succ fuel, .outside own scope assembly⟩
        · split at h
          · rename_i scope
            exact ⟨0, none, Nat.zero_lt_succ fuel, .inside own scope⟩
          · cases h

theorem StandsFor.typeReference (stands : m.StandsFor depth row type?) (short : depth ≤ maxNesting) (fits : row < 2 ^ 24) :
    m.typeReference (.ofRow .typeRef row) = .ok type? := by
  have same : (Token.ofRow .typeRef row).row = row := by rw [Token.row_ofRow, Nat.mod_eq_of_lt fits]
  unfold Module.typeReference
  rw [stands.within _ [] (Nat.lt_succ_of_le short) same]
  cases type? <;> rfl

/-- The reference in a row stands for a type of another assembly, or for none. -/
def Refers (m : Module) (row : Nat) (type? : Option TypeName) : Prop := ∃ depth ≤ maxNesting, m.StandsFor depth row type?

theorem StandsFor.exists_row (stands : m.StandsFor depth row type?) : ∃ r, rowOf? m.typeRefs row = some r := by
  cases stands with
  | inside own => exact ⟨_, own⟩
  | outside own => exact ⟨_, own⟩
  | nested own => exact ⟨_, own⟩

/-- Each row is listed with what its reference stands for. -/
theorem rel_typeReferences {types : List (Option TypeName)} (h : m.typeReferences = .ok types) (row : Nat) :
    Option.Rel (fun _ type? => m.typeReference (.ofRow .typeRef row) = .ok type?) (rowOf? m.typeRefs row)
      (rowOf? types row) := by
  have related := rowOf?_of_forall₂ (mapM_eq_ok.mp h) row
  cases row with
  | zero => exact .none
  | succ row =>
    change Option.Rel _ m.typeRefs[row]? _
    change Option.Rel _ (List.range m.typeRefs.length)[row]? _ at related
    by_cases inside : row < m.typeRefs.length
    · rw [List.getElem?_range inside] at related
      rw [List.getElem?_eq_getElem inside]
      generalize rowOf? types (row + 1) = listed at related ⊢
      cases related with
      | some found => exact .some found
    · rw [List.getElem?_eq_none (by simpa using inside)] at related ⊢
      generalize rowOf? types (row + 1) = listed at related ⊢
      cases related
      exact .none

theorem Refers.listed {types : List (Option TypeName)} (h : m.typeReferences = .ok types) (refers : m.Refers row type?)
    (fits : row < 2 ^ 24) : rowOf? types row = some type? := by
  obtain ⟨depth, short, stands⟩ := refers
  obtain ⟨r, own⟩ := stands.exists_row
  have related := rel_typeReferences h row
  rw [own] at related
  generalize rowOf? types row = listed at related ⊢
  cases related with
  | some found => rw [← Except.ok.inj (found.symm.trans (stands.typeReference short fits))]

namespace Referable

variable (referable : m.Referable)

include referable

theorem fits {r : TypeRef} (own : rowOf? m.typeRefs row = some r) : row < 2 ^ 24 := by
  have bound := (ModuleImage.row_le_of_rowOf? own).2
  have few := referable.count
  unfold maxRows at few
  omega

theorem typeReference_eq_ok (fits : row < 2 ^ 24) :
    m.typeReference (.ofRow .typeRef row) = .ok type? ↔ m.Refers row type? := by
  constructor
  · intro h
    have assemblies : ∀ r ∈ m.typeRefs, r.scope.isIn .assemblyRef = true →
        (rowOf? m.assemblyRefs r.scope.row).isSome = true := by
      intro r member scope
      exact isSome_rowOf? (referable.scopes r member) (referable.assemblies r member scope)
    obtain ⟨depth, found?, short, stands⟩ := standsFor_of_within assemblies h
    rw [Token.row_ofRow, Nat.mod_eq_of_lt fits] at stands
    have short := Nat.le_of_lt_succ short
    cases h.symm.trans (stands.typeReference short fits)
    exact ⟨depth, short, stands⟩
  · rintro ⟨depth, short, stands⟩
    exact stands.typeReference short fits

/-- A reference does not stand for two things. -/
theorem refers_unique {other? : Option TypeName} (one : m.Refers row type?) (two : m.Refers row other?) :
    type? = other? := by
  obtain ⟨depth, short, stands⟩ := one
  obtain ⟨r, own⟩ := stands.exists_row
  have fits := referable.fits own
  have known := (referable.typeReference_eq_ok fits).mpr two
  exact Except.ok.inj ((stands.typeReference short fits).symm.trans known)

theorem listed_iff {types : List (Option TypeName)} (h : m.typeReferences = .ok types) :
    rowOf? types row = some type? ↔ m.Refers row type? := by
  constructor
  · intro listed
    have related := rel_typeReferences h row
    rw [listed] at related
    generalize own : rowOf? m.typeRefs row = r? at related
    cases related with
    | some found => exact (referable.typeReference_eq_ok (referable.fits own)).mp found
  · intro refers
    obtain ⟨depth, short, stands⟩ := refers
    obtain ⟨r, own⟩ := stands.exists_row
    exact Refers.listed h ⟨depth, short, stands⟩ (referable.fits own)

/-- The types can be listed iff all chains of scopes can be followed to their ends. -/
theorem typeReferences_end_iff : (∃ types, m.typeReferences = .ok types) ↔
    ∀ row r, rowOf? m.typeRefs row = some r → ∃ type?, m.Refers row type? := by
  constructor
  · rintro ⟨types, h⟩ row r own
    have related := rel_typeReferences h row
    rw [own] at related
    generalize rowOf? types row = listed at related
    cases related with
    | @some _ type? found => exact ⟨type?, (referable.typeReference_eq_ok (referable.fits own)).mp found⟩
  · intro each
    apply mapM_ends_iff.mpr
    intro i member
    have inside := List.mem_range.mp member
    have own : rowOf? m.typeRefs (i + 1) = some m.typeRefs[i] := List.getElem?_eq_getElem inside
    obtain ⟨type?, refers⟩ := each (i + 1) _ own
    exact ⟨type?, (referable.typeReference_eq_ok (referable.fits own)).mpr refers⟩

end Referable

end Module

end CilWeaver
