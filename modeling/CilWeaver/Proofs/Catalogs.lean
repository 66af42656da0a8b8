import CilWeaver.Proofs.Steps
import CilWeaver.Reference.Catalog
import Mathlib

/-!
Runs of additions to a catalog. A type is found if it was added, or a member of it: what is found is the type that was
added last, or else the one that declares the first of its members. A member is found if it was added, and the first
one with its key stays. The catalog of a module is such a run: each type of the module but the one for global members,
followed by the methods and fields that it has.
-/

namespace CilWeaver

namespace AssemblyName

variable {a b : String}

theorem isCore_congr (same : lower a = lower b) : isCore a = isCore b := by
  unfold isCore
  rw [same]

theorem isCore_coreLibrary : isCore coreLibrary = true := by
  simp [isCore, coreAliases, coreLibrary]

theorem isCore_iff : isCore a = true ↔ ∃ other ∈ coreAliases, lower other = lower a := by
  simp [isCore]

theorem canonical_of_core (core : isCore a = true) : canonical a = coreLibrary := if_pos core

theorem canonical_of_other (other : isCore a = false) : canonical a = a := if_neg (by simp [other])

theorem canonical_canonical (name : String) : canonical (canonical name) = canonical name := by
  cases core : isCore name with
  | true => rw [canonical_of_core core, canonical_of_core isCore_coreLibrary]
  | false => rw [canonical_of_other core, canonical_of_other core]

theorem key_canonical (name : String) : key (canonical name) = key name := by
  unfold key
  rw [canonical_canonical]

theorem key_eq_iff : key a = key b ↔ lower a = lower b ∨ (isCore a = true ∧ isCore b = true) := by
  have apart {other core : String} (left : isCore other = false) (right : isCore core = true) :
      key other ≠ key core := by
    intro same
    unfold key at same
    rw [canonical_of_other left, canonical_of_core right] at same
    rw [isCore_congr same, isCore_coreLibrary] at left
    cases left
  have differ (unequal : isCore a ≠ isCore b) : lower a ≠ lower b := fun same => unequal (isCore_congr same)
  cases left : isCore a <;> cases right : isCore b
  · unfold key
    rw [canonical_of_other left, canonical_of_other right]
    simp
  · simp [apart left right, differ (by simp [left, right])]
  · simp [(apart right left).symm, differ (by simp [left, right])]
  · unfold key
    rw [canonical_of_core left, canonical_of_core right]
    simp

end AssemblyName

@[simp] theorem TypeName.key_canonical (t : TypeName) : t.canonical.key = t.key := by
  unfold TypeName.key TypeName.canonical
  rw [AssemblyName.key_canonical]
  rfl

theorem TypeName.canonical_canonical (t : TypeName) : t.canonical.canonical = t.canonical := by
  unfold TypeName.canonical
  rw [AssemblyName.canonical_canonical]

namespace MemberName

def canonical (m : MemberName) : MemberName := { m with declaring := m.declaring.canonical }

/-- What a member is looked up by. -/
def key (m : MemberName) : TypeKey × String × MemberKind × String := (m.declaring.key, m.name, m.kind, m.signature)

@[simp] theorem key_canonical (m : MemberName) : m.canonical.key = m.key := by
  unfold key canonical
  rw [TypeName.key_canonical]

theorem matches_iff {a b : MemberName} : a.matches b = true ↔ a.key = b.key := by
  unfold MemberName.matches key
  simp [and_assoc]

theorem matches_eq (m : MemberName) : (fun other : MemberName => other.matches m) = (·.key == m.key) := by
  funext other
  rw [Bool.eq_iff_iff, beq_iff_eq, matches_iff]

end MemberName

/-- A type or a member that is added to a catalog. -/
inductive Addition where
  | type (t : TypeName)
  | member (m : MemberName)

namespace Addition

def typeName : Addition → TypeName
  | type t => t
  | member m => m.declaring

/-- The types of a run, in order. -/
def types (run : List Addition) : List TypeName := run.filterMap fun
  | type t => some t
  | member _ => none

/-- The members of a run, in order. -/
def members (run : List Addition) : List MemberName := run.filterMap fun
  | type _ => none
  | member m => some m

variable (run : List Addition) (t : TypeName) (m : MemberName)

@[simp] theorem types_concat_type : types (run ++ [type t]) = types run ++ [t] := by simp [types]

@[simp] theorem types_concat_member : types (run ++ [member m]) = types run := by simp [types]

@[simp] theorem members_concat_type : members (run ++ [type t]) = members run := by simp [members]

@[simp] theorem members_concat_member : members (run ++ [member m]) = members run ++ [m] := by simp [members]

variable {run t m}

theorem mem_types : t ∈ types run ↔ type t ∈ run := by
  unfold types
  rw [List.mem_filterMap]
  constructor
  · rintro ⟨a | a, added, same⟩
    · cases same
      exact added
    · cases same
  · exact fun added => ⟨_, added, rfl⟩

theorem mem_members : m ∈ members run ↔ member m ∈ run := by
  unfold members
  rw [List.mem_filterMap]
  constructor
  · rintro ⟨a | a, added, same⟩
    · cases same
    · cases same
      exact added
  · exact fun added => ⟨_, added, rfl⟩

end Addition

namespace Catalog

def add (c : Catalog) : Addition → Catalog
  | .type t => c.addType t
  | .member m => c.addMember m

/-- The catalog after a run of additions. -/
def ofRun (run : List Addition) : Catalog := run.foldl add {}

theorem ofRun_concat (run : List Addition) (a : Addition) : ofRun (run ++ [a]) = (ofRun run).add a := by
  unfold ofRun
  rw [List.foldl_concat]

/-! Types -/

section Types

variable {κ ν : Type} [BEq κ] [LawfulBEq κ] [DecidableEq κ]

theorem lookup_cons_eq (k key : κ) (v : ν) (entries : List (κ × ν)) :
    ((k, v) :: entries).lookup key = if key = k then some v else entries.lookup key := by
  rw [List.lookup_cons]
  by_cases same : key = k
  · simp [same]
  · simp [same, beq_false_of_ne same]

theorem lookup_map_replace (entries : List (κ × ν)) (k key : κ) (v : ν) :
    (entries.map fun entry => if entry.1 == k then (k, v) else entry).lookup key =
      if key = k then (entries.lookup key).map fun _ => v else entries.lookup key := by
  induction entries with
  | nil => simp
  | cons entry entries ih =>
    obtain ⟨own, w⟩ := entry
    rw [List.map_cons]
    by_cases replaced : own = k
    · subst replaced
      rw [if_pos (by simp), lookup_cons_eq, lookup_cons_eq, ih]
      split <;> rfl
    · rw [if_neg (by simp [replaced]), lookup_cons_eq, lookup_cons_eq, ih]
      by_cases found : key = own
      · simp [found, replaced]
      · simp [found]

theorem lookup_filter_ne {entries : List (κ × ν)} {key wanted : κ} (other : wanted ≠ key) :
    (entries.filter (·.1 != key)).lookup wanted = entries.lookup wanted := by
  induction entries with
  | nil => rfl
  | cons entry entries ih =>
    rcases entry with ⟨own, v⟩
    by_cases dropped : own = key
    · subst dropped
      simp [ih, lookup_cons_eq, other]
    · simp [ih, lookup_cons_eq, dropped]

omit [DecidableEq κ] in
theorem lookup_filter_key (entries : List (κ × ν)) (key : κ) : (entries.filter (·.1 != key)).lookup key = none := by
  rw [List.lookup_eq_none_iff]
  intro entry member
  have other := (List.mem_filter.mp member).2
  rw [bne_iff_ne] at other
  rw [bne_iff_ne]
  exact other.symm

theorem lookup_isSome_iff {entries : List (κ × ν)} {key : κ} :
    (entries.lookup key).isSome = true ↔ key ∈ entries.map Prod.fst := by
  induction entries with
  | nil => simp
  | cons entry entries ih =>
    rw [lookup_cons_eq, List.map_cons, List.mem_cons, ← ih]
    split <;> simp [*]

end Types

variable (c : Catalog)

theorem type?_addType (t : TypeName) (key : TypeKey) :
    (c.addType t).type? key = if key = t.key then some t.canonical else c.type? key := by
  unfold addType
  simp only [TypeName.key_canonical]
  split
  · rename_i known
    unfold type? at known ⊢
    rw [lookup_map_replace]
    split
    · rename_i same
      subst same
      obtain ⟨old, found⟩ := Option.isSome_iff_exists.mp known
      rw [found]
      rfl
    · rfl
  · rename_i unknown
    unfold type? at unknown ⊢
    rw [List.lookup_append, lookup_cons_eq]
    split
    · rename_i same
      subst same
      simp [Option.not_isSome_iff_eq_none.mp unknown]
    · simp

@[simp] theorem members_addType (t : TypeName) : (c.addType t).members = c.members := by
  unfold addType
  dsimp only
  split <;> rfl

theorem types_addMember (m : MemberName) : (c.addMember m).types =
    if (c.type? m.declaring.key).isSome then c.types else (c.addType m.declaring.canonical).types := by
  unfold addMember
  simp only [TypeName.key_canonical]
  split <;> split <;> rfl

theorem members_addMember (m : MemberName) : (c.addMember m).members =
    if c.members.any (·.matches m) then c.members else c.members ++ [m.canonical] := by
  have same : c.members.any (·.matches m.canonical) = c.members.any (·.matches m) := by
    simp only [MemberName.matches_eq, MemberName.key_canonical]
  rw [← same]
  unfold addMember
  by_cases known : (c.type? m.declaring.canonical.key).isSome = true
  · simp only [known, if_true]
    exact apply_ite Catalog.members ..
  · simp only [known, if_false, Bool.false_eq_true, members_addType]
    exact (apply_ite Catalog.members ..).trans (by rw [members_addType]; rfl)

theorem type?_addMember (m : MemberName) (key : TypeKey) : (c.addMember m).type? key =
    (c.type? key).or (if key = m.declaring.key then some m.declaring.canonical else none) := by
  unfold type?
  rw [types_addMember]
  change _ = (c.type? key).or _
  split
  · rename_i known
    by_cases same : key = m.declaring.key
    · subst same
      obtain ⟨t, found⟩ := Option.isSome_iff_exists.mp known
      rw [found]
      exact found
    · simp [same, type?]
  · rename_i unknown
    change (c.addType m.declaring.canonical).type? key = _
    rw [type?_addType, TypeName.key_canonical, TypeName.canonical_canonical]
    split
    · rename_i same
      subst same
      simp [Option.not_isSome_iff_eq_none.mp unknown]
    · simp

/-- The type under a key is the one that was added last, or else the one that declares the first member. -/
theorem type?_ofRun (run : List Addition) (key : TypeKey) : (ofRun run).type? key =
    (((Addition.types run).reverse.find? (·.key == key)).or
      (((Addition.members run).find? (·.declaring.key == key)).map (·.declaring))).map TypeName.canonical := by
  induction run using List.reverseRecOn with
  | nil => rfl
  | append_singleton run a ih =>
    rw [ofRun_concat]
    cases a with
    | type t =>
      rw [add, type?_addType, ih]
      by_cases same : key = t.key
      · simp [same]
      · simp [same, beq_false_of_ne (Ne.symm same)]
    | member m =>
      rw [add, type?_addMember, ih]
      by_cases same : key = m.declaring.key
      · simp [same]
      · simp [same, beq_false_of_ne (Ne.symm same)]

theorem type?_ofRun_isSome {run : List Addition} {key : TypeKey} :
    ((ofRun run).type? key).isSome = true ↔ ∃ a ∈ run, a.typeName.key = key := by
  rw [type?_ofRun]
  simp only [Option.isSome_map, Option.isSome_or, Bool.or_eq_true, List.find?_isSome, List.mem_reverse, beq_iff_eq]
  constructor
  · rintro (⟨t, added, same⟩ | ⟨m, added, same⟩)
    · exact ⟨.type t, Addition.mem_types.mp added, same⟩
    · exact ⟨.member m, Addition.mem_members.mp added, same⟩
  · rintro ⟨a | a, added, same⟩
    · exact .inl ⟨a, Addition.mem_types.mpr added, same⟩
    · exact .inr ⟨a, Addition.mem_members.mpr added, same⟩

/-! Members -/

theorem member_ofRun (run : List Addition) (key : TypeKey × String × MemberKind × String) :
    (ofRun run).members.find? (·.key == key) =
      ((Addition.members run).find? (·.key == key)).map MemberName.canonical := by
  induction run using List.reverseRecOn generalizing key with
  | nil => rfl
  | append_singleton run a ih =>
    rw [ofRun_concat]
    cases a with
    | type t => rw [add, members_addType, Addition.members_concat_type, ih]
    | member m =>
      have known : (ofRun run).members.any (·.matches m) = ((Addition.members run).find? (·.key == m.key)).isSome := by
        rw [MemberName.matches_eq, ← List.isSome_find?, ih, Option.isSome_map]
      rw [add, members_addMember, known, Addition.members_concat_member, List.find?_append]
      split
      · rename_i present
        rw [ih]
        by_cases same : m.key = key
        · subst same
          obtain ⟨first, found⟩ := Option.isSome_iff_exists.mp present
          simp [found]
        · simp [same]
      · rw [List.find?_append, ih]
        by_cases same : m.key = key <;> simp [same]

theorem find?_member (c : Catalog) (m : MemberName) :
    c.find? (.member m) = (c.members.find? (·.key == m.key)).map .member := by
  rw [find?, MemberName.matches_eq]

theorem find?_type_isSome {run : List Addition} {t : TypeName} :
    ((ofRun run).find? (.type t)).isSome = true ↔ ∃ a ∈ run, a.typeName.key = t.key := by
  rw [find?, Option.isSome_map, type?_ofRun_isSome]

theorem find?_member_isSome {run : List Addition} {m : MemberName} :
    ((ofRun run).find? (.member m)).isSome = true ↔ ∃ added, .member added ∈ run ∧ added.key = m.key := by
  rw [find?_member, member_ofRun, Option.isSome_map, Option.isSome_map, List.find?_isSome]
  simp [Addition.mem_members]

/-! Counts -/

theorem length_eq_card {κ : Type} [DecidableEq κ] {keys added : List κ} (distinct : keys.Nodup)
    (same : ∀ key, key ∈ keys ↔ key ∈ added) : keys.length = added.toFinset.card := by
  rw [← List.toFinset_card_of_nodup distinct]
  congr 1
  ext key
  rw [List.mem_toFinset, List.mem_toFinset, same]

theorem keys_addType (c : Catalog) (t : TypeName) : (c.addType t).types.map Prod.fst =
    if (c.type? t.key).isSome then c.types.map Prod.fst else c.types.map Prod.fst ++ [t.key] := by
  unfold addType
  simp only [TypeName.key_canonical]
  split
  · rw [List.map_map]
    apply List.map_congr_left
    intro entry _
    by_cases replaced : entry.1 = t.key <;> simp [replaced]
  · simp

theorem nodup_addType {c : Catalog} (distinct : (c.types.map Prod.fst).Nodup) (t : TypeName) :
    ((c.addType t).types.map Prod.fst).Nodup := by
  rw [keys_addType]
  split
  · exact distinct
  · rename_i unknown
    rw [← List.concat_eq_append, List.nodup_concat]
    exact ⟨fun known => unknown (lookup_isSome_iff.mpr known), distinct⟩

theorem nodup_add {c : Catalog}
    (distinct : (c.types.map Prod.fst).Nodup ∧ (c.members.map MemberName.key).Nodup) (a : Addition) :
    ((c.add a).types.map Prod.fst).Nodup ∧ ((c.add a).members.map MemberName.key).Nodup := by
  obtain ⟨types, members⟩ := distinct
  cases a with
  | type t =>
    rw [add, members_addType]
    exact ⟨nodup_addType types t, members⟩
  | member m =>
    rw [add, types_addMember, members_addMember]
    constructor
    · split
      · exact types
      · exact nodup_addType types _
    · split
      · exact members
      · rename_i unknown
        rw [List.map_append, List.map_singleton, MemberName.key_canonical, ← List.concat_eq_append, List.nodup_concat]
        refine ⟨fun known => unknown ?_, members⟩
        rcases List.mem_map.mp known with ⟨other, present, same⟩
        exact List.any_eq_true.mpr ⟨other, present, MemberName.matches_iff.mpr same⟩

theorem nodup_ofRun (run : List Addition) :
    ((ofRun run).types.map Prod.fst).Nodup ∧ ((ofRun run).members.map MemberName.key).Nodup := by
  induction run using List.reverseRecOn with
  | nil => simp [ofRun]
  | append_singleton run a ih =>
    rw [ofRun_concat]
    exact nodup_add ih a

theorem typeCount_ofRun (run : List Addition) :
    (ofRun run).typeCount = (run.map (·.typeName.key)).toFinset.card := by
  have same (key : TypeKey) : key ∈ (ofRun run).types.map Prod.fst ↔ key ∈ run.map (·.typeName.key) := by
    rw [← lookup_isSome_iff, List.mem_map]
    exact type?_ofRun_isSome
  rw [← length_eq_card (nodup_ofRun run).1 same, List.length_map]
  rfl

theorem memberCount_ofRun (run : List Addition) :
    (ofRun run).memberCount = ((Addition.members run).map MemberName.key).toFinset.card := by
  have same (key) : key ∈ (ofRun run).members.map MemberName.key ↔
      key ∈ (Addition.members run).map MemberName.key := by
    have found := congrArg Option.isSome (member_ofRun run key)
    rw [Option.isSome_map, Bool.eq_iff_iff, List.find?_isSome, List.find?_isSome] at found
    simpa [List.mem_map] using found
  rw [← length_eq_card (nodup_ofRun run).2 same, List.length_map]
  rfl

/-- A symbol is found iff it was added, and a type also with any of its members. Of types with one key the last one
counts, and a type that was never added is the one of its first member; of members with one key the first one counts.
Nothing is there twice, and all names of the core library are the same to a key. -/
theorem ofRun_answers (run : List Addition) :
    (∀ t : TypeName,
      (((ofRun run).find? (.type t)).isSome = true ↔ ∃ a ∈ run, a.typeName.key = t.key) ∧
      (ofRun run).find? (.type t) =
        (((Addition.types run).reverse.find? (·.key == t.key)).or
          (((Addition.members run).find? (·.declaring.key == t.key)).map (·.declaring))).map
            fun found => .type found.canonical) ∧
    (∀ m : MemberName,
      (((ofRun run).find? (.member m)).isSome = true ↔ ∃ added, .member added ∈ run ∧ added.key = m.key) ∧
      (ofRun run).find? (.member m) =
        ((Addition.members run).find? (·.key == m.key)).map fun found => .member found.canonical) ∧
    (ofRun run).typeCount = (run.map (·.typeName.key)).toFinset.card ∧
    (ofRun run).memberCount = ((Addition.members run).map MemberName.key).toFinset.card ∧
    ∀ a b : String, AssemblyName.key a = AssemblyName.key b ↔
      AssemblyName.lower a = AssemblyName.lower b ∨
        ((∃ name ∈ AssemblyName.coreAliases, AssemblyName.lower name = AssemblyName.lower a) ∧
          ∃ name ∈ AssemblyName.coreAliases, AssemblyName.lower name = AssemblyName.lower b) := by
  refine ⟨fun t => ⟨?_, ?_⟩, fun m => ⟨?_, ?_⟩, typeCount_ofRun run, memberCount_ofRun run, fun a b => ?_⟩
  · exact find?_type_isSome
  · rw [find?, type?_ofRun, Option.map_map]
    rfl
  · exact find?_member_isSome
  · rw [find?_member, member_ofRun, Option.map_map]
    rfl
  · rw [AssemblyName.key_eq_iff, AssemblyName.isCore_iff, AssemblyName.isCore_iff]

end Catalog

/-! The catalog of a module -/

/-- The names and signatures of the methods of a type, and then of its fields. -/
def TypeDef.signed (t : TypeDef) : List (String × Bytes) :=
  t.methods.map (fun d => (d.name, d.signature)) ++ t.fields.map fun f => (f.name, f.signature)

namespace Catalog

/-- A loop whose steps each make additions makes the additions of all of them. -/
theorem foldlM_eq_ok {α : Type} {f : Catalog → α → Result Catalog} {Makes : α → List Addition → Prop}
    (step : ∀ c a c', f c a = .ok c' ↔ ∃ run, Makes a run ∧ c' = run.foldl add c) {items : List α} {c c' : Catalog} :
    items.foldlM f c = .ok c' ↔ ∃ runs, List.Forall₂ Makes items runs ∧ c' = runs.flatten.foldl add c := by
  induction items generalizing c with
  | nil =>
    rw [List.foldlM_nil, Outcome.pure_eq_ok]
    simp [eq_comm]
  | cons a items ih =>
    rw [List.foldlM_cons, Outcome.bind_eq_ok]
    constructor
    · rintro ⟨c₁, first, others⟩
      obtain ⟨run, makes, rfl⟩ := (step c a c₁).mp first
      obtain ⟨runs, all, rfl⟩ := ih.mp others
      exact ⟨run :: runs, .cons makes all, by rw [List.flatten_cons, List.foldl_append]⟩
    · rintro ⟨runs, all, rfl⟩
      cases all with
      | @cons _ run _ runs makes all =>
        refine ⟨run.foldl add c, (step c a _).mpr ⟨run, makes, rfl⟩, ih.mpr ⟨runs, all, ?_⟩⟩
        rw [List.flatten_cons, List.foldl_append]

/-- What is added for a name and a signature. -/
def MemberRun (m : Module) (declaring : TypeName) (member : String × Bytes) (run : List Addition) : Prop :=
  ∃ kind signature, m.memberSignature member.2 = .ok (kind, signature) ∧
    run = [.member ⟨declaring, member.1, kind, signature⟩]

theorem addSigned_eq_ok {m : Module} {declaring : TypeName} {c c' : Catalog} {members : List (String × Bytes)} :
    addSigned m declaring c members = .ok c' ↔
      ∃ runs, List.Forall₂ (MemberRun m declaring) members runs ∧ c' = runs.flatten.foldl add c := by
  apply foldlM_eq_ok
  intro c member c'
  dsimp only
  rw [Outcome.bind_eq_ok]
  constructor
  · rintro ⟨⟨kind, signature⟩, signed, last⟩
    cases Outcome.pure_eq_ok.mp last
    exact ⟨_, ⟨kind, signature, signed, rfl⟩, rfl⟩
  · rintro ⟨run, ⟨kind, signature, signed, rfl⟩, rfl⟩
    exact ⟨(kind, signature), signed, rfl⟩

/-- The name of a type in the catalog of its module. -/
def nameIn (m : Module) (t : TypeDef) : TypeName := ⟨AssemblyName.canonical (assemblyOf m), t.namespaceName, t.name⟩

/-- What is added for a type. -/
def TypeRun (m : Module) (t : TypeDef) (run : List Addition) : Prop :=
  ∃ runs, List.Forall₂ (MemberRun m (nameIn m t)) t.signed runs ∧ run = .type (nameIn m t) :: runs.flatten

theorem addTypeDef_eq (m : Module) (c : Catalog) (t : TypeDef) :
    addTypeDef m c t = addSigned m (nameIn m t) (c.addType (nameIn m t)) t.signed := by
  unfold addSigned TypeDef.signed
  rw [List.foldlM_append]
  rfl

theorem addTypeDef_eq_ok {m : Module} {c c' : Catalog} {t : TypeDef} :
    addTypeDef m c t = .ok c' ↔ ∃ run, TypeRun m t run ∧ c' = run.foldl add c := by
  rw [addTypeDef_eq, addSigned_eq_ok]
  constructor
  · rintro ⟨runs, all, rfl⟩
    exact ⟨_, ⟨runs, all, rfl⟩, rfl⟩
  · rintro ⟨run, ⟨runs, all, rfl⟩, rfl⟩
    exact ⟨runs, all, rfl⟩

theorem ofModule_eq_ok {m : Module} {c : Catalog} : ofModule m = .ok c ↔
    ∃ runs, List.Forall₂ (TypeRun m) (m.types.filter (·.name != moduleTypeName)) runs ∧ c = ofRun runs.flatten := by
  unfold ofModule ofRun
  exact @foldlM_eq_ok _ (addTypeDef m) (TypeRun m) (fun c t c' => addTypeDef_eq_ok) _ {} c

/-- The run of a module: its types, each with its methods and fields, and all of it in one assembly. -/
theorem run_of_ofModule {m : Module} {c : Catalog} (made : ofModule m = .ok c) : ∃ run, c = ofRun run ∧
    (∀ t ∈ m.types, t.name ≠ moduleTypeName → .type (nameIn m t) ∈ run ∧ ∀ name blob, (name, blob) ∈ t.signed →
      ∃ kind signature, m.memberSignature blob = .ok (kind, signature) ∧
        .member ⟨nameIn m t, name, kind, signature⟩ ∈ run) ∧
    ∀ a ∈ run, a.typeName.assembly = AssemblyName.canonical (assemblyOf m) := by
  obtain ⟨runs, all, rfl⟩ := ofModule_eq_ok.mp made
  refine ⟨runs.flatten, rfl, fun t type listed => ?_, fun a member => ?_⟩
  · obtain ⟨run, among, memberRuns, members, rfl⟩ := forall₂_of_mem all (List.mem_filter.mpr ⟨type, by simpa using listed⟩)
    refine ⟨List.mem_flatten_of_mem among List.mem_cons_self, fun name blob member => ?_⟩
    obtain ⟨_, own, kind, signature, signed, rfl⟩ := forall₂_of_mem members member
    refine ⟨kind, signature, signed, List.mem_flatten_of_mem among ?_⟩
    exact List.mem_cons_of_mem _ (List.mem_flatten_of_mem own List.mem_cons_self)
  · obtain ⟨run, among, member⟩ := List.mem_flatten.mp member
    obtain ⟨t, -, memberRuns, members, rfl⟩ := forall₂_of_mem all.flip among
    rcases List.mem_cons.mp member with rfl | member
    · rfl
    · obtain ⟨single, own, member⟩ := List.mem_flatten.mp member
      obtain ⟨_, -, kind, signature, -, rfl⟩ := forall₂_of_mem members.flip own
      cases List.mem_singleton.mp member
      rfl

/-- Each method and field of a type is in the run of its module, with its signature. -/
theorem member_of_ofModule {m : Module} {c : Catalog} (made : ofModule m = .ok c) {t : TypeDef} (type : t ∈ m.types)
    (listed : t.name ≠ moduleTypeName) {name : String} {blob : Bytes} (member : (name, blob) ∈ t.signed) :
    ∃ run kind signature, c = ofRun run ∧ m.memberSignature blob = .ok (kind, signature) ∧
      .member ⟨nameIn m t, name, kind, signature⟩ ∈ run := by
  obtain ⟨run, same, types, -⟩ := run_of_ofModule made
  obtain ⟨kind, signature, signed, added⟩ := (types t type listed).2 name blob member
  exact ⟨run, kind, signature, same, signed, added⟩

end Catalog

end CilWeaver
