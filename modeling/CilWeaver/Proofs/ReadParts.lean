import CilWeaver.Proofs.ReadModules

/-!
A module that was read, taken apart: from which rows and runs of the image its lists come.
-/

namespace CilWeaver

open Step

namespace ModuleImage

variable {image : ModuleImage} {points? : Option SymbolImage} {maxBodySize : Nat}

/-- A method that is read from a row and the run of its parameters. -/
structure ReadsMethod (image : ModuleImage) (points? : Option SymbolImage) (maxBodySize : Nat) (position : Nat)
    (row : MethodDefRow) (params : Run) (d : MethodDef) : Prop where
  flags : d.flags = row.flags
  implFlags : d.implFlags = row.implFlags
  name : image.string row.name = .ok d.name
  signature : image.blob row.signature = .ok d.signature
  params : List.Forall₂ (fun row p => image.paramDef row = .ok p) (params.slice image.params) d.params
  body : ∃ text, image.bodyWithSymbols points? maxBodySize position text row.address = .ok d.body?

theorem readsMethod {owner : TypeDef} {position : Nat} {row : MethodDefRow} {params : Run} {d : MethodDef}
    (h : image.methodDef points? maxBodySize owner position row params = .ok d) :
    image.ReadsMethod points? maxBodySize position row params d := by
  unfold methodDef at h
  obtain ⟨name, named, h⟩ := Outcome.bind_eq_ok.mp h
  obtain ⟨found, parameters, h⟩ := Outcome.bind_eq_ok.mp h
  obtain ⟨body?, body, h⟩ := Outcome.bind_eq_ok.mp h
  obtain ⟨signature, blob, h⟩ := Outcome.bind_eq_ok.mp h
  cases Outcome.pure_eq_ok.mp h
  exact ⟨rfl, rfl, named, blob, Outcome.mapM_eq_ok.mp parameters, _, body⟩

/-- The methods of a run with the runs of their parameters and their positions. -/
def ownMethods (image : ModuleImage) (paramRuns : List Run) (methods : Run) : List ((MethodDefRow × Run) × Nat) :=
  ((methods.slice image.methods).zip (methods.slice paramRuns)).zipIdx methods.start

/-- A type that is read from a row and the runs of its members. -/
structure ReadsType (image : ModuleImage) (points? : Option SymbolImage) (maxBodySize : Nat) (paramRuns : List Run)
    (row : TypeDefRow) (fields methods : Run) (t : TypeDef) : Prop where
  flags : t.flags = row.flags
  namespaceName : image.string row.namespaceName = .ok t.namespaceName
  name : image.string row.name = .ok t.name
  baseType : t.baseType = if row.baseType.isNull then .null else row.baseType.token
  fields : List.Forall₂ (fun row f => image.fieldDef row = .ok f) (fields.slice image.fields) t.fields
  methods : List.Forall₂ (fun item d => image.ReadsMethod points? maxBodySize item.2 item.1.1 item.1.2 d)
    (image.ownMethods paramRuns methods) t.methods

theorem readsType {paramRuns : List Run} {row : TypeDefRow} {fields methods : Run} {t : TypeDef}
    (h : image.typeDef points? maxBodySize paramRuns row fields methods = .ok t) :
    image.ReadsType points? maxBodySize paramRuns row fields methods t := by
  unfold typeDef at h
  obtain ⟨namespaceName, spaced, h⟩ := Outcome.bind_eq_ok.mp h
  obtain ⟨name, named, h⟩ := Outcome.bind_eq_ok.mp h
  obtain ⟨found, ownFields, h⟩ := Outcome.bind_eq_ok.mp h
  obtain ⟨own, read, h⟩ := Outcome.bind_eq_ok.mp h
  cases Outcome.pure_eq_ok.mp h
  have each := (Outcome.mapM_eq_ok.mp read).imp fun item d found => readsMethod found
  exact ⟨rfl, spaced, named, rfl, Outcome.mapM_eq_ok.mp ownFields, each⟩

/-- The runs that the rows of owners name in the three tables of members. -/
structure MemberRuns where
  fields : List Run
  methods : List Run
  params : List Run

/-- A module that is read from an image without symbols of its own. -/
structure ReadsModule (image : ModuleImage) (points? : Option SymbolImage) (maxBodySize : Nat) (runs : MemberRuns)
    (m : Module) : Prop where
  version : m.runtimeVersion = image.version
  generation : m.generation = image.moduleRow.generation
  name : image.string image.moduleRow.name = .ok m.name
  mvid : image.guids.get image.moduleRow.mvid = .ok m.mvid
  assembly : image.assembly?.mapM image.assemblyIdentity = .ok m.assembly?
  assemblyRefs : List.Forall₂ (fun row r => image.assemblyRef row = .ok r) image.assemblyRefs m.assemblyRefs
  typeRefs : List.Forall₂ (fun row r => image.typeRef row = .ok r) image.typeRefs m.typeRefs
  memberRefs : List.Forall₂ (fun row r => image.memberRef row = .ok r) image.memberRefs m.memberRefs
  signatures : List.Forall₂ (fun row blob => image.blob row.signature = .ok blob) image.signatures m.localSignatures
  fieldRuns : image.fieldRuns = .ok runs.fields
  methodRuns : image.methodRuns = .ok runs.methods
  paramRuns : image.paramRuns = .ok runs.params
  types : List.Forall₂ (fun item t => image.ReadsType points? maxBodySize runs.params item.1 item.2.1 item.2.2 t)
    (image.typeDefs.zip (runs.fields.zip runs.methods)) m.types
  documents : m.documents = []
  entryPoint : m.entryPoint = .null
  symbols : m.symbols? = none

theorem readsModule {m : Module} (h : image.module points? maxBodySize = .ok m) :
    ∃ runs, image.ReadsModule points? maxBodySize runs m := by
  unfold ModuleImage.module at h
  obtain ⟨name, named, h⟩ := Outcome.bind_eq_ok.mp h
  obtain ⟨mvid, identified, h⟩ := Outcome.bind_eq_ok.mp h
  obtain ⟨assembly?, assembly, h⟩ := Outcome.bind_eq_ok.mp h
  obtain ⟨assemblyRefs, assemblies, h⟩ := Outcome.bind_eq_ok.mp h
  obtain ⟨typeRefs, typeReferences, h⟩ := Outcome.bind_eq_ok.mp h
  obtain ⟨memberRefs, memberReferences, h⟩ := Outcome.bind_eq_ok.mp h
  obtain ⟨localSignatures, signatures, h⟩ := Outcome.bind_eq_ok.mp h
  obtain ⟨fieldRuns, fields, h⟩ := Outcome.bind_eq_ok.mp h
  obtain ⟨methodRuns, methods, h⟩ := Outcome.bind_eq_ok.mp h
  obtain ⟨paramRuns, params, h⟩ := Outcome.bind_eq_ok.mp h
  obtain ⟨types, read, h⟩ := Outcome.bind_eq_ok.mp h
  cases Outcome.pure_eq_ok.mp h
  have each := (Outcome.mapM_eq_ok.mp read).imp fun item t found => readsType found
  exact ⟨⟨fieldRuns, methodRuns, paramRuns⟩, rfl, rfl, named, identified, assembly, Outcome.mapM_eq_ok.mp assemblies,
    Outcome.mapM_eq_ok.mp typeReferences, Outcome.mapM_eq_ok.mp memberReferences, Outcome.mapM_eq_ok.mp signatures,
    fields, methods, params, each, rfl, rfl, rfl⟩

section

variable {runs : MemberRuns} {m : Module} (reads : image.ReadsModule points? maxBodySize runs m)

include reads

theorem ReadsModule.length_fields : runs.fields.length = image.typeDefs.length := by
  have count := Run.length_fromRow reads.fieldRuns
  rwa [List.length_map] at count

theorem ReadsModule.length_methods : runs.methods.length = image.typeDefs.length := by
  have count := Run.length_fromRow reads.methodRuns
  rwa [List.length_map] at count

theorem ReadsModule.length_params : runs.params.length = image.methods.length := by
  have count := Run.length_fromRow reads.paramRuns
  rwa [List.length_map] at count

theorem ReadsModule.length_types : m.types.length = image.typeDefs.length := by
  have count := reads.types.length_eq
  have fields := reads.length_fields
  have methods := reads.length_methods
  simp only [List.length_zip] at count
  omega

theorem ReadsModule.length_assembly : (if m.assembly?.isSome then 1 else 0) = image.assembly?.toList.length := by
  have found := reads.assembly
  cases shape : image.assembly? with
  | none =>
    rw [shape] at found
    rw [← Outcome.pure_eq_ok.mp found]
    rfl
  | some row =>
    rw [shape] at found
    obtain ⟨a, -, last⟩ := Outcome.bind_eq_ok.mp found
    rw [← Outcome.pure_eq_ok.mp last]
    rfl

/-- What holds of every body that is read holds of the bodies of the module. -/
theorem ReadsModule.bodies {p : MethodBody → Prop} (each : ∀ position text address,
      Outcome.Answers (image.bodyWithSymbols points? maxBodySize position text address) fun body? =>
        ∀ b, body? = some b → p b) :
    ∀ t ∈ m.types, ∀ d ∈ t.methods, d.AllBodies p := by
  intro t member d listed b body
  obtain ⟨item, -, type⟩ := forall₂_of_mem reads.types.flip member
  obtain ⟨own, -, method⟩ := forall₂_of_mem type.methods.flip listed
  obtain ⟨text, found⟩ := method.body
  exact each _ _ _ _ found b body

end

end ModuleImage

namespace Module

/-- The module with the documents and the entry point of symbols that were read along with it. -/
def withSymbols (m : Module) : Option (SymbolImage × SymbolFile) → Module
  | none => m
  | some (symbols, file) =>
    { m with documents := symbols.documents, entryPoint := symbols.entryPoint, symbols? := some file }

section

variable {σ : Type} {lookup : Lookup σ}

theorem length_of_resolveAll {references definitions : List (Option Symbol)} {s s' : σ}
    (h : resolveAll lookup references s = .ok definitions s') : definitions.length = references.length := by
  unfold resolveAll at h
  induction references generalizing definitions s s' with
  | nil =>
    rw [List.mapM_nil] at h
    rw [← (pure_eq_ok.mp h).1]
  | cons reference? references ih =>
    rw [List.mapM_cons] at h
    obtain ⟨first, s₁, -, h⟩ := bind_eq_ok.mp h
    obtain ⟨rest, s₂, others, last⟩ := bind_eq_ok.mp h
    rw [← (pure_eq_ok.mp last).1, List.length_cons, List.length_cons, ih others]

/-- Resolving changes nothing but the definitions, whatever the look-up does. -/
theorem withDefinitions_of_resolve {m found : Module} {s s' : σ} (h : resolve lookup m s = .ok found s') :
    ∃ types members, types.length = m.typeRefs.length ∧ members.length = m.memberRefs.length ∧
      found = m.withDefinitions types members := by
  unfold resolve at h
  cases references : m.references with
  | error e =>
    simp only [references] at h
    exact absurd h throw_ne_ok
  | ok symbols =>
    obtain ⟨ofTypes, ofMembers⟩ := symbols
    simp only [references] at h
    obtain ⟨types, s₁, first, h⟩ := bind_eq_ok.mp h
    obtain ⟨members, s₂, second, last⟩ := bind_eq_ok.mp h
    obtain ⟨typeCount, memberCount⟩ := length_of_references references
    exact ⟨types, members, (length_of_resolveAll first).trans typeCount, (length_of_resolveAll second).trans memberCount,
      (pure_eq_ok.mp last).1.symm⟩

/-- A module that was read is the module of the images with definitions. -/
theorem ofImages_of_read {options : ReadOptions} {name : String} {code : Bytes} {symbols? : Option Bytes} {m : Module}
    {s s' : σ} (h : Module.read lookup options name code symbols? s = .ok m s') :
    ∃ found types members, ofImages name options.maxBodySize code symbols? = .ok found ∧
      types.length = found.typeRefs.length ∧ members.length = found.memberRefs.length ∧
        m = found.withDefinitions types members := by
  unfold Module.read at h
  by_cases refused : (symbols?.isNone && options.symbolsRequired) = true
  · simp only [refused, ↓reduceIte] at h
    exact absurd h throw_ne_ok
  · simp only [refused, Bool.false_eq_true, ↓reduceIte] at h
    cases read : (ofImages name options.maxBodySize code symbols?).mapError asMalformed with
    | error e =>
      simp only [read] at h
      exact absurd h throw_ne_ok
    | ok found =>
      simp only [read] at h
      obtain ⟨types, members, typeCount, memberCount, same⟩ := withDefinitions_of_resolve h
      exact ⟨found, types, members, mapError_eq_ok.mp read, typeCount, memberCount, same⟩

end

/-- A module that a reader answers: with its references resolved, or without symbols and unresolved. -/
inductive ReadAs (name : String) (code : Bytes) : (symbols? : Option Bytes) → (maxBodySize : Nat) → Module → Prop
  | resolved {σ : Type} {lookup : Lookup σ} {options : ReadOptions} {symbols? : Option Bytes} {m : Module} {s s' : σ}
      (read : Module.read lookup options name code symbols? s = .ok m s') : ReadAs name code symbols? options.maxBodySize m
  | definitions {m : Module} (read : readDefinitions name code = .ok m) : ReadAs name code none defaultMaxBodySize m

/-- The parts of a module that was read from images. -/
structure ReadFrom (name : String) (maxBodySize : Nat) (code : Bytes) (symbols? : Option Bytes) (image : ModuleImage)
    (given? : Option (SymbolImage × SymbolFile)) (plain m : Module) : Prop where
  parsed : ModuleImage.parse code = .ok image
  symbols : symbols?.mapM (symbolsOf name image) = .ok given?
  module : image.module (given?.map (·.1)) maxBodySize = .ok plain
  entryPoint : ∀ found ∈ given?, image.checkEntryPoint name found.1.entryPoint = .ok ()
  whole : ∃ types members, types.length = plain.typeRefs.length ∧ members.length = plain.memberRefs.length ∧
    m = (plain.withSymbols given?).withDefinitions types members

theorem parts_of_ofImages {name : String} {maxBodySize : Nat} {code : Bytes} {symbols? : Option Bytes} {found : Module}
    (h : ofImages name maxBodySize code symbols? = .ok found) :
    ∃ image given? plain, ModuleImage.parse code = .ok image ∧ symbols?.mapM (symbolsOf name image) = .ok given? ∧
      image.module (given?.map (·.1)) maxBodySize = .ok plain ∧
        (∀ found ∈ given?, image.checkEntryPoint name found.1.entryPoint = .ok ()) ∧ found = plain.withSymbols given? := by
  unfold ofImages at h
  obtain ⟨image, parsed, h⟩ := Outcome.bind_eq_ok.mp h
  cases symbols? with
  | none => exact ⟨image, none, found, parsed, rfl, h, by simp, rfl⟩
  | some data =>
    obtain ⟨⟨symbols, file⟩, given, h⟩ := Outcome.bind_eq_ok.mp h
    obtain ⟨plain, read, h⟩ := Outcome.bind_eq_ok.mp h
    obtain ⟨⟨⟩, entry, last⟩ := Outcome.bind_eq_ok.mp h
    refine ⟨image, some (symbols, file), plain, parsed, ?_, read, ?_, (Outcome.pure_eq_ok.mp last).symm⟩
    · exact Outcome.bind_eq_ok.mpr ⟨_, given, rfl⟩
    · intro other same
      cases same
      exact entry

theorem typeRefs_withSymbols (m : Module) (given? : Option (SymbolImage × SymbolFile)) :
    (m.withSymbols given?).typeRefs = m.typeRefs ∧ (m.withSymbols given?).memberRefs = m.memberRefs := by
  cases given? <;> exact ⟨rfl, rfl⟩

theorem withDefinitions_self (m : Module) :
    m.withDefinitions (m.typeRefs.map (·.definition?)) (m.memberRefs.map (·.definition?)) = m := by
  simp [withDefinitions, List.zipWith_map_right, List.zipWith_self]

theorem readFrom_of_ofImages {name : String} {maxBodySize : Nat} {code : Bytes} {symbols? : Option Bytes} {found : Module}
    (h : ofImages name maxBodySize code symbols? = .ok found) :
    ∃ image given? plain, ReadFrom name maxBodySize code symbols? image given? plain found := by
  obtain ⟨image, given?, plain, parsed, symbols, module, entry, same⟩ := parts_of_ofImages h
  obtain ⟨typeRefs, memberRefs⟩ := plain.typeRefs_withSymbols given?
  have whole := (plain.withSymbols given?).withDefinitions_self
  rw [typeRefs, memberRefs] at whole
  refine ⟨image, given?, plain, parsed, symbols, module, entry, plain.typeRefs.map (·.definition?),
    plain.memberRefs.map (·.definition?), List.length_map _, List.length_map _, ?_⟩
  rw [whole, same]

theorem ReadAs.parts {name : String} {maxBodySize : Nat} {code : Bytes} {symbols? : Option Bytes} {m : Module}
    (read : ReadAs name code symbols? maxBodySize m) :
    ∃ image given? plain, ReadFrom name maxBodySize code symbols? image given? plain m := by
  cases read with
  | resolved read =>
    obtain ⟨found, types, members, images, typeCount, memberCount, rfl⟩ := ofImages_of_read read
    obtain ⟨image, given?, plain, parsed, symbols, module, entry, rfl⟩ := parts_of_ofImages images
    obtain ⟨typeRefs, memberRefs⟩ := plain.typeRefs_withSymbols given?
    rw [typeRefs] at typeCount
    rw [memberRefs] at memberCount
    exact ⟨image, given?, plain, parsed, symbols, module, entry, types, members, typeCount, memberCount, rfl⟩
  | definitions read => exact readFrom_of_ofImages (mapError_eq_ok.mp read)

variable {m : Module} {types members : List (Option Symbol)}

theorem rows_withDefinitions (typeCount : types.length = m.typeRefs.length) (memberCount : members.length = m.memberRefs.length)
    (t : Table) : (m.withDefinitions types members).rows t = m.rows t := by
  cases t with
  | typeRef => simp [withDefinitions, rows, typeCount]
  | memberRef => simp [withDefinitions, rows, memberCount]
  | _ => rfl

theorem scopes_withDefinitions (typeCount : types.length = m.typeRefs.length) :
    (m.withDefinitions types members).typeRefs.map (·.scope) = m.typeRefs.map (·.scope) := by
  apply map_zipWith_left _ typeCount
  exact fun r definition? => rfl

theorem parents_withDefinitions (memberCount : members.length = m.memberRefs.length) :
    (m.withDefinitions types members).memberRefs.map (·.parent) = m.memberRefs.map (·.parent) := by
  apply map_zipWith_left _ memberCount
  exact fun r definition? => rfl

namespace ReadFrom

variable {name : String} {maxBodySize : Nat} {code : Bytes} {symbols? : Option Bytes} {image : ModuleImage}
  {given? : Option (SymbolImage × SymbolFile)} {plain : Module}
  (parts : ReadFrom name maxBodySize code symbols? image given? plain m)

include parts

theorem types_eq : m.types = plain.types := by
  obtain ⟨types, members, -, -, rfl⟩ := parts.whole
  cases given? <;> rfl

theorem rows_eq {t : Table} (member : t ∈ Table.ofModule) : m.rows t = plain.rows t := by
  obtain ⟨types, members, typeCount, memberCount, rfl⟩ := parts.whole
  obtain ⟨typeRefs, memberRefs⟩ := plain.typeRefs_withSymbols given?
  rw [rows_withDefinitions (typeCount.trans (congrArg _ typeRefs.symm)) (memberCount.trans (congrArg _ memberRefs.symm))]
  cases given? with
  | none => rfl
  | some given =>
    cases t with
    | document => exact absurd member (by decide)
    | methodDebugInformation => exact absurd member (by decide)
    | _ => rfl

theorem scopes_eq : m.typeRefs.map (·.scope) = plain.typeRefs.map (·.scope) := by
  obtain ⟨types, members, typeCount, -, rfl⟩ := parts.whole
  obtain ⟨typeRefs, -⟩ := plain.typeRefs_withSymbols given?
  rw [scopes_withDefinitions (typeCount.trans (congrArg _ typeRefs.symm)), typeRefs]

theorem parents_eq : m.memberRefs.map (·.parent) = plain.memberRefs.map (·.parent) := by
  obtain ⟨types, members, -, memberCount, rfl⟩ := parts.whole
  obtain ⟨-, memberRefs⟩ := plain.typeRefs_withSymbols given?
  rw [parents_withDefinitions (memberCount.trans (congrArg _ memberRefs.symm)), memberRefs]

end ReadFrom

end Module

end CilWeaver
