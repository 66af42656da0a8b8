import CilWeaver.Module.Emission
import CilWeaver.Proofs.FileTrees
import CilWeaver.Proofs.Steps
import CilWeaver.Reference.Resolver

/-!
What a search path answers after it was asked other things. It looks for the image of an assembly under the name that the
first request for the assembly has, and keeps what it finds for all names that mean the same assembly. So an answer
depends on how the first request spelled the name, and on nothing else that was asked before.
-/

namespace CilWeaver

namespace SearchPath

@[simp] theorem lookup_remember (s : SearchPath) (key wanted : String) (catalog? : Option Catalog) :
    (s.remember key catalog?).found.lookup wanted = if wanted = key then some catalog? else s.found.lookup wanted := by
  unfold remember
  rw [Catalog.lookup_cons_eq]
  split
  · rfl
  · rename_i other
    exact Catalog.lookup_filter_ne other

@[simp] theorem probe_remember (s : SearchPath) (key assembly : String) (catalog? : Option Catalog) :
    (s.remember key catalog?).probe assembly = s.probe assembly := rfl

/-- The search path after catalogs of these assemblies were asked for. -/
def after (s : SearchPath) (assemblies : List String) : SearchPath := assemblies.foldl (fun s a => (s.catalog a).2) s

/-- How the first request for an assembly spells its name. -/
def spelling (assemblies : List String) (assembly : String) : String :=
  (assemblies.find? fun a => AssemblyName.key a == AssemblyName.key assembly).getD assembly

theorem catalog_fst (s : SearchPath) (assembly : String) :
    (s.catalog assembly).1 = (s.found.lookup (AssemblyName.key assembly)).getD (s.probe assembly) := by
  unfold catalog
  dsimp only
  split
  · rename_i known
    rw [known]
    rfl
  · rename_i unknown
    rw [unknown]
    rfl

theorem catalog_of_fresh {s : SearchPath} (fresh : s.found = []) (assembly : String) :
    (s.catalog assembly).1 = s.probe assembly := by
  rw [catalog_fst, fresh]
  rfl

theorem lookup_catalog (s : SearchPath) (assembly key : String) : (s.catalog assembly).2.found.lookup key =
    (s.found.lookup key).or (if key = AssemblyName.key assembly then some (s.probe assembly) else none) := by
  unfold catalog
  dsimp only
  split
  · rename_i known
    by_cases same : key = AssemblyName.key assembly
    · subst same
      simp [known]
    · simp [same]
  · rename_i unknown
    rw [lookup_remember]
    by_cases same : key = AssemblyName.key assembly
    · subst same
      simp [unknown]
    · simp [same]

@[simp] theorem probe_catalog (s : SearchPath) (assembly other : String) :
    (s.catalog assembly).2.probe other = s.probe other := by
  unfold catalog
  dsimp only
  split <;> rfl

@[simp] theorem probe_after (s : SearchPath) (assemblies : List String) (other : String) :
    (s.after assemblies).probe other = s.probe other := by
  induction assemblies generalizing s with
  | nil => rfl
  | cons a assemblies ih => exact (ih _).trans (s.probe_catalog a other)

/-- What is remembered was there before, or was found under the first name with the key. -/
theorem lookup_after (s : SearchPath) (assemblies : List String) (key : String) : (s.after assemblies).found.lookup key =
    (s.found.lookup key).or ((assemblies.find? fun a => AssemblyName.key a == key).map s.probe) := by
  induction assemblies generalizing s with
  | nil => simp [after]
  | cons a assemblies ih =>
    change ((s.catalog a).2.after assemblies).found.lookup key = _
    rw [ih, lookup_catalog, Option.or_assoc, List.find?_cons, show (s.catalog a).2.probe = s.probe from funext (s.probe_catalog a)]
    by_cases same : key = AssemblyName.key a
    · simp only [same, if_true, beq_self_eq_true, Option.some_or, Option.map_some]
    · simp only [same, if_false, beq_false_of_ne (Ne.symm same), Option.none_or]

theorem catalog_after (s : SearchPath) (assemblies : List String) (assembly : String) :
    ((s.after assemblies).catalog assembly).1 = (s.catalog (spelling assemblies assembly)).1 := by
  unfold spelling
  rw [catalog_fst, catalog_fst, lookup_after, probe_after]
  cases first : assemblies.find? fun a => AssemblyName.key a == AssemblyName.key assembly with
  | none => simp
  | some a =>
    have same : AssemblyName.key a = AssemblyName.key assembly := by simpa using List.find?_some first
    rw [Option.getD_some, same, Option.map_some]
    cases s.found.lookup (AssemblyName.key assembly) with
    | none => rw [Option.none_or, Option.getD_some, Option.getD_none]
    | some catalog? => rw [Option.some_or, Option.getD_some, Option.getD_some]

end SearchPath

namespace Resolver

open SearchPath (spelling)

/-- The resolver after a history of requests. -/
def after (r : Resolver) (history : List Symbol) : Resolver := history.foldl (fun r asked => (resolve asked r).2) r

theorem after_searchPath (s : SearchPath) (history : List Symbol) :
    after (.searchPath s) history = .searchPath (s.after (history.map Symbol.assembly)) := by
  induction history generalizing s with
  | nil => rfl
  | cons asked history ih =>
    change after (resolve asked (.searchPath s)).2 history = _
    rw [resolve]
    exact ih _

theorem resolve_searchPath (s : SearchPath) (reference : Symbol) : (resolve reference (.searchPath s)).1 =
    answer reference ((s.catalog reference.assembly).1.bind (·.find? reference)) := by
  rw [resolve]

theorem answer_inj {reference : Symbol} {found? other? : Option Symbol} :
    answer reference found? = answer reference other? ↔ found? = other? := by
  cases found? <;> cases other? <;> simp [answer]

theorem resolve_after_eq (s : SearchPath) (history : List Symbol) (reference : Symbol) :
    (resolve reference (after (.searchPath s) history)).1 = answer reference
      ((s.catalog (spelling (history.map Symbol.assembly) reference.assembly)).1.bind (·.find? reference)) := by
  rw [after_searchPath, resolve_searchPath, SearchPath.catalog_after]

theorem spelling_singleton {assembly other : String} (same : AssemblyName.key other = AssemblyName.key assembly) :
    spelling [other] assembly = other := by
  simp [spelling, same]

theorem spelling_of_alike {assemblies : List String} {assembly : String}
    (alike : ∀ a ∈ assemblies, AssemblyName.key a = AssemblyName.key assembly → a = assembly) :
    spelling assemblies assembly = assembly := by
  unfold spelling
  cases first : assemblies.find? fun a => AssemblyName.key a == AssemblyName.key assembly with
  | none => rfl
  | some a => exact alike a (List.mem_of_find?_eq_some first) (by simpa using List.find?_some first)

theorem key_spelling (assemblies : List String) (assembly : String) :
    AssemblyName.key (spelling assemblies assembly) = AssemblyName.key assembly := by
  unfold spelling
  cases first : assemblies.find? fun a => AssemblyName.key a == AssemblyName.key assembly with
  | none => rfl
  | some a => simpa using List.find?_some first

/-- The answer comes from the catalog of the first spelling. So what was asked before does not matter as long as all
requests for an assembly spell its name alike; and it never matters iff all spellings lead to the same answers. -/
theorem resolve_after_history (s : SearchPath) :
    (∀ history reference, (resolve reference (after (.searchPath s) history)).1 = answer reference
      ((s.catalog (spelling (history.map Symbol.assembly) reference.assembly)).1.bind (·.find? reference))) ∧
    (∀ history reference, (∀ asked ∈ history, AssemblyName.key asked.assembly = AssemblyName.key reference.assembly →
        asked.assembly = reference.assembly) →
      (resolve reference (after (.searchPath s) history)).1 = (resolve reference (.searchPath s)).1) ∧
    ((∀ history reference,
        (resolve reference (after (.searchPath s) history)).1 = (resolve reference (.searchPath s)).1) ↔
      ∀ (assembly : String) (reference : Symbol), AssemblyName.key assembly = AssemblyName.key reference.assembly →
        (s.catalog assembly).1.bind (·.find? reference) =
          (s.catalog reference.assembly).1.bind (·.find? reference)) := by
  refine ⟨resolve_after_eq s, fun history reference alike => ?_, fun same assembly reference key => ?_,
    fun same history reference => ?_⟩
  · have spelled : spelling (history.map Symbol.assembly) reference.assembly = reference.assembly :=
      spelling_of_alike (List.forall_mem_map.mpr alike)
    rw [resolve_after_eq, resolve_searchPath, spelled]
  · have asked := same [.type ⟨assembly, "", ""⟩] reference
    have spelled : spelling ([Symbol.type ⟨assembly, "", ""⟩].map Symbol.assembly) reference.assembly = assembly :=
      spelling_singleton key
    rw [resolve_after_eq, resolve_searchPath, answer_inj, spelled] at asked
    exact asked
  · rw [resolve_after_eq, resolve_searchPath, answer_inj]
    exact same _ reference (key_spelling _ _)

end Resolver

namespace Sample

/-- A library with one type, in a file of its name. -/
def library : Module :=
  { name := "A.dll"
    runtimeVersion := "v4"
    assembly? := some ⟨"A", ⟨1, 0, 0, 0⟩, 0, 0, [], ""⟩
    types := [{ flags := 0, namespaceName := "", name := "T", baseType := .null, fields := [], methods := [] }] }

def libraryImage : Bytes := (library.emit fun _ => .zero).toOption.elim [] (·.code)

def files (data : Bytes) : FileTree := { nodes := [(["A.dll"], .file data)] }

def libraryPath : SearchPath := { tree := files libraryImage, directories := [""] }

def typeIn (assembly : String) : Symbol := .type ⟨assembly, "", "T"⟩

theorem locate_upper (data : Bytes) : (files data).locate "A.dll" = .ok ⟨["A.dll"], some (.file data)⟩ := by
  rw [FileTree.locate_single (by simp) (by simp) (by decide) (by decide +kernel) (by decide +kernel)]
  rfl

theorem find?_lower (data : Bytes) : (files data).find? "a.dll" = none ∧ (files data).find? "a.exe" = none := by
  unfold FileTree.find?
  rw [FileTree.locate_single (by simp) (by simp) (by decide) (by decide +kernel) (by decide +kernel),
    FileTree.locate_single (by simp) (by simp) (by decide) (by decide +kernel) (by decide +kernel)]
  exact ⟨rfl, rfl⟩

theorem probe_lower : libraryPath.probe "a" = none := by
  have names : SearchPath.fileNames "a" = ["a.dll", "a.exe"] := by decide +kernel
  have joined : Path.join "" "a.dll" = "a.dll" ∧ Path.join "" "a.exe" = "a.exe" := by decide +kernel
  unfold SearchPath.probe
  rw [names]
  change ([""] : List String).findSome? _ = none
  simp [SearchPath.load?, joined, FileTree.isFile, FileTree.contains, libraryPath, find?_lower]

theorem load?_of_read {t : FileTree} {directory name : String} {data : Bytes} {catalog : Catalog}
    (isFile : t.isFile (Path.join directory name) = true) (read : t.read (Path.join directory name) = .ok data)
    (filled : data.isEmpty = false) (made : (Module.readDefinitions name data >>= Catalog.ofModule) = .ok catalog) :
    SearchPath.load? t directory name = some catalog := by
  have opened : File.openIn t (Path.join directory name) = .ok ⟨data, filled⟩ := by
    unfold File.openIn
    rw [read]
    exact dif_pos filled
  unfold SearchPath.load?
  simp only [isFile, opened, if_true, Outcome.ok_bind]
  rw [made]
  rfl

theorem read_upper (data : Bytes) : (files data).read "A.dll" = .ok data := by
  unfold FileTree.read
  rw [locate_upper]
  rfl

theorem isFile_upper (data : Bytes) : (files data).isFile "A.dll" = true := by
  simp [FileTree.isFile, FileTree.contains, FileTree.isDirectory, FileTree.find?, locate_upper, Except.toOption]

theorem probe_upper : ∃ catalog, libraryPath.probe "A" = some catalog ∧ catalog.find? (typeIn "A") = some (typeIn "A") := by
  have names : SearchPath.fileNames "A" = ["A.dll", "A.exe"] := by decide +kernel
  have joined : Path.join "" "A.dll" = "A.dll" := by decide +kernel
  have loads : (Module.readDefinitions "A.dll" libraryImage >>= Catalog.ofModule).toOption.any
      (fun c => c.find? (typeIn "A") == some (typeIn "A")) = true := by
    decide +kernel
  rcases Outcome.exists_of_any loads with ⟨catalog, made, finds⟩
  have loaded : SearchPath.load? libraryPath.tree "" "A.dll" = some catalog :=
    load?_of_read (by rw [joined]; exact isFile_upper _) (by rw [joined]; exact read_upper _) (by decide +kernel) made
  refine ⟨catalog, ?_, eq_of_beq finds⟩
  unfold SearchPath.probe
  rw [names]
  change ([""] : List String).findSome? (fun d => ["A.dll", "A.exe"].findSome? (SearchPath.load? libraryPath.tree d)) = _
  simp [loaded]

end Sample

namespace Resolver

open SearchPath (spelling)

theorem resolve_upper : answer (Sample.typeIn "A") ((Sample.libraryPath.catalog "A").1.bind (·.find? (Sample.typeIn "A"))) =
    .ok (Sample.typeIn "A") := by
  rcases Sample.probe_upper with ⟨catalog, found, finds⟩
  rw [SearchPath.catalog_of_fresh rfl, found, Option.bind_some, finds]
  rfl

/-- A request in small letters finds nothing, and then a request by the right name finds nothing either. -/
theorem resolve_after_other_spelling :
    (resolve (Sample.typeIn "A") (.searchPath Sample.libraryPath)).1 = .ok (Sample.typeIn "A") ∧
      (resolve (Sample.typeIn "A") (after (.searchPath Sample.libraryPath) [Sample.typeIn "a"])).1 =
        .error (.notFound "[A]T") := by
  have key : AssemblyName.key "a" = AssemblyName.key "A" := by decide +kernel
  have spelled : spelling ([Sample.typeIn "a"].map Symbol.assembly) (Sample.typeIn "A").assembly = "a" :=
    spelling_singleton key
  constructor
  · rw [resolve_searchPath]
    exact resolve_upper
  · have text : (Sample.typeIn "A").text = "[A]T" := by decide +kernel
    rw [resolve_after_eq, spelled, SearchPath.catalog_of_fresh rfl, Sample.probe_lower, ← text]
    rfl

/-- Requests for the library by its right name, and for others, do not matter. -/
theorem resolve_after_history_sample : (resolve (Sample.typeIn "A")
    (after (.searchPath Sample.libraryPath) [Sample.typeIn "b", Sample.typeIn "A"])).1 = .ok (Sample.typeIn "A") := by
  have alike : ∀ asked ∈ [Sample.typeIn "b", Sample.typeIn "A"],
      AssemblyName.key asked.assembly = AssemblyName.key (Sample.typeIn "A").assembly →
        asked.assembly = (Sample.typeIn "A").assembly := by
    decide +kernel
  rw [(resolve_after_history Sample.libraryPath).2.1 _ _ alike, resolve_searchPath]
  exact resolve_upper

end Resolver

end CilWeaver
