import CilWeaver.Proofs.SearchHistory
import CilWeaver.Proofs.SharedMembers

/-!
What a search path finds of an image that was added to it. The image is filed under the name of its assembly, or else under
the name it is added by; its definitions are in the assembly of that name, or else in one named after the module itself.
Where these are names of one assembly, all definitions are found, and where they are not, none is.
-/

namespace CilWeaver

/-- The two are looked up by the same key. -/
def Symbol.SameKey : Symbol → Symbol → Prop
  | .type s, .type t => s.key = t.key
  | .member a, .member b => a.key = b.key
  | _, _ => False

namespace Catalog

variable {run : List Addition}

/-- What is found has the key that was looked for. -/
theorem sameKey_of_find? {reference found : Symbol} (h : (ofRun run).find? reference = some found) :
    found.SameKey reference := by
  cases reference with
  | type t =>
    rw [find?, type?_ofRun, Option.map_map, Option.map_eq_some_iff] at h
    obtain ⟨added, first, rfl⟩ := h
    have key : added.key = t.key := by
      rcases Option.or_eq_some_iff.mp first with last | ⟨-, other⟩
      · simpa using List.find?_some last
      · obtain ⟨m, member, rfl⟩ := Option.map_eq_some_iff.mp other
        simpa using List.find?_some member
    exact (TypeName.key_canonical added).trans key
  | member m =>
    rw [find?_member, member_ofRun, Option.map_map, Option.map_eq_some_iff] at h
    obtain ⟨added, first, rfl⟩ := h
    have key : added.key = m.key := by simpa using List.find?_some first
    exact (MemberName.key_canonical added).trans key

/-- The definitions of a module are found in its own assembly only. -/
theorem find?_ofModule {m : Module} {c : Catalog} (made : ofModule m = .ok c) (assembly : String) {t : TypeDef}
    (defined : t ∈ m.types) (listed : t.name ≠ moduleTypeName) :
    ((c.find? (.type ⟨assembly, t.namespaceName, t.name⟩)).isSome = true ↔
      AssemblyName.key assembly = AssemblyName.key (assemblyOf m)) ∧
    ∀ name blob, (name, blob) ∈ t.signed → ∃ kind signature, m.memberSignature blob = .ok (kind, signature) ∧
      ((c.find? (.member ⟨⟨assembly, t.namespaceName, t.name⟩, name, kind, signature⟩)).isSome = true ↔
        AssemblyName.key assembly = AssemblyName.key (assemblyOf m)) := by
  obtain ⟨run, rfl, types, assemblies⟩ := run_of_ofModule made
  obtain ⟨typeAdded, membersAdded⟩ := types t defined listed
  have own : ∀ a ∈ run, AssemblyName.key a.typeName.assembly = AssemblyName.key (assemblyOf m) := fun a member => by
    rw [assemblies a member, AssemblyName.key_canonical]
  have key (same : AssemblyName.key assembly = AssemblyName.key (assemblyOf m)) :
      (nameIn m t).key = (TypeName.mk assembly t.namespaceName t.name).key := by
    unfold TypeName.key nameIn
    dsimp only
    rw [AssemblyName.key_canonical, same]
    rfl
  refine ⟨?_, fun name blob member => ?_⟩
  · rw [find?_type_isSome]
    constructor
    · rintro ⟨a, added, same⟩
      rw [← own a added]
      exact (congrArg TypeKey.assembly same).symm
    · exact fun same => ⟨_, typeAdded, key same⟩
  · obtain ⟨kind, signature, signed, added⟩ := membersAdded name blob member
    refine ⟨kind, signature, signed, ?_⟩
    rw [find?_member_isSome]
    constructor
    · rintro ⟨other, present, same⟩
      rw [← own _ present]
      exact (congrArg (TypeKey.assembly ∘ Prod.fst) same).symm
    · intro same
      refine ⟨_, added, ?_⟩
      unfold MemberName.key
      rw [key same]

end Catalog

namespace SearchPath

/-- The assembly that an image is filed under. -/
def filedUnder (m : Module) (name : String) : String :=
  match m.assembly? with
  | some identity => identity.name
  | none => Path.stem name

theorem addImage_eq_ok {s s' : SearchPath} {name : String} {image : Bytes} : s.addImage name image = .ok s' ↔
    ∃ m c, Module.readDefinitions name image = .ok m ∧ Catalog.ofModule m = .ok c ∧
      s' = s.remember (AssemblyName.key (filedUnder m name)) (some c) := by
  unfold addImage
  constructor
  · intro h
    obtain ⟨m, read, h⟩ := Outcome.bind_eq_ok.mp h
    obtain ⟨c, made, h⟩ := Outcome.bind_eq_ok.mp h
    exact ⟨m, c, read, made, (Outcome.pure_eq_ok.mp h).symm⟩
  · rintro ⟨m, c, read, made, rfl⟩
    exact Outcome.bind_eq_ok.mpr ⟨m, read, Outcome.bind_eq_ok.mpr ⟨c, made, rfl⟩⟩

theorem catalog_remember (s : SearchPath) {key assembly : String} (same : AssemblyName.key assembly = key) (c : Catalog) :
    ((s.remember key (some c)).catalog assembly).1 = some c := by
  rw [catalog_fst, lookup_remember, if_pos same]
  rfl

end SearchPath

namespace Resolver

open SearchPath (filedUnder)

/-- The resolver answers a definition with the key of the reference. -/
def Finds (r : Resolver) (reference : Symbol) : Prop := ∃ found, (resolve reference r).1 = .ok found ∧ found.SameKey reference

theorem resolve_missing {s : SearchPath} {reference : Symbol}
    (missing : (s.catalog reference.assembly).1.bind (·.find? reference) = none) :
    (resolve reference (.searchPath s)).1 = .error (.notFound reference.text) := by
  rw [resolve_searchPath, missing]
  rfl

/-- Whatever was asked before, the catalog that is remembered for an assembly is what is asked. -/
theorem finds_remembered (s : SearchPath) {key : String} (run : List Addition) (history : List Symbol) (reference : Symbol)
    (same : AssemblyName.key reference.assembly = key) :
    Finds (after (.searchPath (s.remember key (some (Catalog.ofRun run)))) history) reference ↔
      ((Catalog.ofRun run).find? reference).isSome = true := by
  -- the spelling that was asked first has the key of the reference, and by this key the catalog is remembered
  have spelled := (key_spelling (history.map Symbol.assembly) reference.assembly).trans same
  unfold Finds
  rw [resolve_after_eq, SearchPath.catalog_remember s spelled, Option.bind_some]
  cases found : (Catalog.ofRun run).find? reference with
  | none => simp [answer]
  | some definition =>
    have own := Catalog.sameKey_of_find? found
    simp [answer, own]

/-- Of an image that was added to a search path, all definitions are found in the assembly it is filed under if that is
also the assembly of its module, whatever was asked before; and otherwise none is. -/
theorem finds_added_iff {s s' : SearchPath} {name : String} {image : Bytes} (added : s.addImage name image = .ok s') :
    ∃ m, Module.readDefinitions name image = .ok m ∧
      (∀ assembly, AssemblyName.key assembly = AssemblyName.key (filedUnder m name) → ∀ history,
        ∀ t ∈ m.types, t.name ≠ moduleTypeName →
          (Finds (after (.searchPath s') history) (.type ⟨assembly, t.namespaceName, t.name⟩) ↔
            AssemblyName.key (filedUnder m name) = AssemblyName.key (Catalog.assemblyOf m)) ∧
          ∀ member blob, (member, blob) ∈ t.signed →
            ∃ kind signature, m.memberSignature blob = .ok (kind, signature) ∧
              (Finds (after (.searchPath s') history)
                  (.member ⟨⟨assembly, t.namespaceName, t.name⟩, member, kind, signature⟩) ↔
                AssemblyName.key (filedUnder m name) = AssemblyName.key (Catalog.assemblyOf m))) ∧
      (∀ identity, m.assembly? = some identity → filedUnder m name = identity.name ∧ Catalog.assemblyOf m = identity.name) ∧
      (m.assembly? = none → filedUnder m name = Path.stem name ∧ Catalog.assemblyOf m = Path.stem m.name) := by
  obtain ⟨m, c, read, made, rfl⟩ := SearchPath.addImage_eq_ok.mp added
  refine ⟨m, read, fun assembly same history t defined listed => ?_, fun identity named => ?_, fun unnamed => ?_⟩
  · obtain ⟨typeFound, membersFound⟩ := Catalog.find?_ofModule made assembly defined listed
    obtain ⟨run, rfl, -⟩ := Catalog.run_of_ofModule made
    rw [same] at typeFound
    have asked := @finds_remembered s (AssemblyName.key (filedUnder m name)) run history
    refine ⟨(asked (.type ⟨assembly, t.namespaceName, t.name⟩) same).trans typeFound, fun member blob own => ?_⟩
    obtain ⟨kind, signature, signed, memberFound⟩ := membersFound member blob own
    rw [same] at memberFound
    exact ⟨kind, signature, signed,
      (asked (.member ⟨⟨assembly, t.namespaceName, t.name⟩, member, kind, signature⟩) same).trans memberFound⟩
  · unfold SearchPath.filedUnder Catalog.assemblyOf
    rw [named]
    exact ⟨rfl, rfl⟩
  · unfold SearchPath.filedUnder Catalog.assemblyOf
    rw [unnamed]
    exact ⟨rfl, rfl⟩

end Resolver

namespace Sample

/-- The library as a module without an assembly of its own. -/
def netmodule : Module := { library with assembly? := none }

def netmoduleImage : Bytes := (netmodule.emit fun _ => .zero).toOption.elim [] (·.code)

/-- The image defines the type, and these are the names it is filed and catalogued by. -/
def definesType (name filed own : String) : Bool := (Module.readDefinitions name netmoduleImage).toOption.any fun m =>
  m.types.any (fun t => t.name == "T" && t.namespaceName == "") && SearchPath.filedUnder m name == filed &&
    Catalog.assemblyOf m == own

theorem exists_added {name filed own : String} (defines : definesType name filed own = true)
    (adds : (({} : SearchPath).addImage name netmoduleImage).toOption.any (fun _ => true) = true) :
    ∃ s m t, ({} : SearchPath).addImage name netmoduleImage = .ok s ∧ Module.readDefinitions name netmoduleImage = .ok m ∧
      t ∈ m.types ∧ t.name = "T" ∧ t.namespaceName = "" ∧ SearchPath.filedUnder m name = filed ∧
      Catalog.assemblyOf m = own := by
  obtain ⟨s, added, -⟩ := Outcome.exists_of_any adds
  obtain ⟨m, read, same⟩ := Outcome.exists_of_any defines
  simp only [Bool.and_eq_true, List.any_eq_true, beq_iff_eq] at same
  obtain ⟨⟨⟨t, defined, named⟩, filed⟩, own⟩ := same
  exact ⟨s, m, t, added, read, defined, named.1, named.2, filed, own⟩

end Sample

namespace Resolver

/-- The name it is added by differs from the name of the module in its case and extension only. -/
theorem finds_added_iff_sample : ∃ s, ({} : SearchPath).addImage "a.netmodule" Sample.netmoduleImage = .ok s ∧
    Finds (.searchPath s) (.type ⟨"a", "", "T"⟩) := by
  obtain ⟨s, m, t, added, read, defined, named, global, filed, own⟩ :=
    @Sample.exists_added "a.netmodule" "a" "A" (by decide +kernel) (by decide +kernel)
  obtain ⟨m', read', found, -⟩ := finds_added_iff added
  cases Except.ok.inj (read.symm.trans read')
  have other : t.name ≠ moduleTypeName := by
    rw [named]
    decide
  have type := (found "a" (congrArg AssemblyName.key filed.symm) [] t defined other).1
  rw [named, global, filed, own] at type
  exact ⟨s, added, type.mpr (by decide +kernel)⟩

/-- Under another name, the type of the module is found neither in the assembly of that name nor in the one of the module. -/
theorem added_not_found : ∃ s m t, ({} : SearchPath).addImage "b.netmodule" Sample.netmoduleImage = .ok s ∧
    Module.readDefinitions "b.netmodule" Sample.netmoduleImage = .ok m ∧ SearchPath.filedUnder m "b.netmodule" = "b" ∧
    t ∈ m.types ∧ t.name = "T" ∧ t.namespaceName = "" ∧ t.name ≠ moduleTypeName ∧
    (resolve (.type ⟨"b", "", "T"⟩) (.searchPath s)).1 = .error (.notFound "[b]T") ∧
    (resolve (.type ⟨"A", "", "T"⟩) (.searchPath s)).1 = .error (.notFound "[A]T") := by
  obtain ⟨s, m, t, added, read, defined, named, global, filed, own⟩ :=
    @Sample.exists_added "b.netmodule" "b" "A" (by decide +kernel) (by decide +kernel)
  have other : t.name ≠ moduleTypeName := by
    rw [named]
    decide
  obtain ⟨m', c, read', made, rfl⟩ := SearchPath.addImage_eq_ok.mp added
  cases Except.ok.inj (read.symm.trans read')
  refine ⟨_, m, t, added, read, filed, defined, named, global, other, ?_, ?_⟩
  · have absent := (Catalog.find?_ofModule made "b" defined other).1
    rw [named, global, own] at absent
    have none : c.find? (.type ⟨"b", "", "T"⟩) = none :=
      Option.not_isSome_iff_eq_none.mp (absent.not.mpr (by decide +kernel))
    have text : (Symbol.type ⟨"b", "", "T"⟩).text = "[b]T" := by decide +kernel
    rw [← text]
    apply resolve_missing
    have catalog := SearchPath.catalog_remember {} (congrArg AssemblyName.key filed.symm) c
    exact (congrArg (Option.bind · _) catalog).trans none
  · have text : (Symbol.type ⟨"A", "", "T"⟩).text = "[A]T" := by decide +kernel
    have apart : AssemblyName.key "A" ≠ AssemblyName.key "b" := by decide +kernel
    have unknown : ((({} : SearchPath).remember (AssemblyName.key (SearchPath.filedUnder m "b.netmodule")) (some c)).catalog
        "A").1 = none := by
      rw [SearchPath.catalog_fst, SearchPath.lookup_remember, filed, if_neg apart]
      rfl
    rw [← text]
    apply resolve_missing
    exact congrArg (Option.bind · _) unknown

end Resolver

end CilWeaver
