import CilWeaver.Proofs.ReadParts
import CilWeaver.Proofs.ParsedImages

/-!
The rows of members that a reader keeps. Owners name the first rows of their runs, and a run ends where the
next one starts, so that rows in front of the first run belong to nobody.
-/

namespace CilWeaver

open Step

namespace Run

variable {column : ListColumn} {total : Nat} {starts : List Nat} {runs : List Run}

/-- The runs follow each other from `start` to `stop`. -/
def Consecutive : (start : Nat) → List Run → (stop : Nat) → Prop
  | start, [], stop => start = stop
  | start, r :: runs, stop => r.start = start ∧ r.start ≤ r.stop ∧ Consecutive r.stop runs stop

/-- The first run starts at the first row; where there is no run, there are no rows. -/
def FromFirst (starts : List Nat) (total : Nat) : Prop := starts.head?.getD (total + 1) = 1

instance (starts : List Nat) (total : Nat) : Decidable (FromFirst starts total) :=
  inferInstanceAs (Decidable (starts.head?.getD (total + 1) = 1))

theorem consecutive_of_fromRow {row start : Nat} (h : fromRow column total row (start :: starts) = .ok runs) :
    Consecutive (start - 1) runs total := by
  induction starts generalizing row start runs with
  | nil =>
    obtain ⟨others, more, positive, ordered, rfl⟩ := fromRow_cons_eq_ok h
    cases more
    simp only [List.head?_nil, Option.getD_none] at ordered
    refine ⟨rfl, ?_, rfl⟩
    simp only [List.head?_nil, Option.getD_none]
    omega
  | cons next starts ih =>
    obtain ⟨others, more, positive, ordered, rfl⟩ := fromRow_cons_eq_ok h
    simp only [List.head?_cons, Option.getD_some] at ordered
    refine ⟨rfl, ?_, ih more⟩
    simp only [List.head?_cons, Option.getD_some]
    omega

/-- Runs that are accepted divide the rows from the first one on. They divide all rows iff that is row one. -/
theorem consecutive_iff (h : ofStarts column total starts = .ok runs) : Consecutive 0 runs total ↔ FromFirst starts total := by
  unfold FromFirst
  cases starts with
  | nil =>
    cases h
    change 0 = total ↔ total + 1 = 1
    omega
  | cons start starts =>
    have follows := consecutive_of_fromRow h
    obtain ⟨others, -, positive, -, rfl⟩ := fromRow_cons_eq_ok h
    change _ ↔ start = 1
    constructor
    · intro whole
      have first : start - 1 = 0 := whole.1
      omega
    · rintro rfl
      exact follows

theorem flatMap_slice_of_fromFirst {α : Type} {items : List α} (h : ofStarts column items.length starts = .ok runs)
    (first : FromFirst starts items.length) : runs.flatMap (·.slice items) = items := by
  cases starts with
  | nil =>
    cases h
    have empty : items.length = 0 := Nat.succ.inj first
    rw [List.length_eq_zero_iff.mp empty]
    rfl
  | cons start starts =>
    have one : start = 1 := first
    rw [flatMap_slice_fromRow h, one]
    rfl

/-- Rows in front of the first run are in no run. -/
theorem fromFirst_of_sum {α : Type} {items : List α} (h : ofStarts column items.length starts = .ok runs)
    (all : (runs.map fun r => (r.slice items).length).sum = items.length) : FromFirst starts items.length := by
  rw [← List.length_flatMap] at all
  cases starts with
  | nil =>
    cases h
    change items.length + 1 = 1
    rw [← all]
    rfl
  | cons start starts =>
    have ⟨others, _, positive, ordered, _⟩ := fromRow_cons_eq_ok h
    have bound : start ≤ items.length + 1 := by
      by_contra outside
      unfold ofStarts fromRow at h
      rw [if_pos (.inr (by omega))] at h
      cases h
    rw [flatMap_slice_fromRow h, List.length_drop] at all
    change start = 1
    omega

/-- The first row that is written for the members of owners is the first of all. -/
theorem fromFirst_startsFrom (lengths : List Nat) : FromFirst (startsFrom 1 lengths) lengths.sum := by
  cases lengths <;> rfl

theorem slice_zip {α β : Type} (r : Run) (as : List α) (bs : List β) :
    (r.slice as).zip (r.slice bs) = r.slice (as.zip bs) := by
  simp [slice, List.zip, List.take_zipWith, List.drop_zipWith]

theorem slice_zipIdx {α : Type} (r : Run) (items : List α) : (r.slice items).zipIdx r.start = r.slice items.zipIdx := by
  apply List.ext_getElem?
  intro index
  by_cases inside : index < r.length
  · simp [slice, inside]
  · simp [slice, inside]

end Run

namespace Module

/-- All fields in the order of their rows. -/
def fieldList (m : Module) : List FieldDef := m.types.flatMap (·.fields)

/-- All parameters in the order of their rows. -/
def paramList (m : Module) : List ParamDef := (m.types.flatMap (·.methods)).flatMap (·.params)

theorem length_fieldList (m : Module) : m.fieldList.length = m.rows .field := List.length_flatMap

theorem length_paramList (m : Module) : m.paramList.length = m.rows .param := by
  unfold paramList
  rw [List.length_flatMap, ← ModuleRows.methodList_map_snd, List.map_map]
  rfl

end Module

namespace ModuleImage

/-- Every field, method and parameter of the image belongs to an owner. -/
structure Owned (image : ModuleImage) : Prop where
  fields : Run.FromFirst (image.typeDefs.map (·.firstField)) image.fields.length
  methods : Run.FromFirst (image.typeDefs.map (·.firstMethod)) image.methods.length
  params : Run.FromFirst (image.methods.map (·.firstParam)) image.params.length

instance (image : ModuleImage) : Decidable image.Owned :=
  decidable_of_iff
    (Run.FromFirst (image.typeDefs.map (·.firstField)) image.fields.length ∧
      Run.FromFirst (image.typeDefs.map (·.firstMethod)) image.methods.length ∧
        Run.FromFirst (image.methods.map (·.firstParam)) image.params.length)
    ⟨fun h => ⟨h.1, h.2.1, h.2.2⟩, fun h => ⟨h.fields, h.methods, h.params⟩⟩

/-- The methods of the image with the runs of their parameters and their positions. -/
def listedMethods (image : ModuleImage) (paramRuns : List Run) : List ((MethodDefRow × Run) × Nat) :=
  (image.methods.zip paramRuns).zipIdx

/-- Each row of the image is one item of the module, at the place of the row. -/
structure Numbered (image : ModuleImage) (points? : Option SymbolImage) (maxBodySize : Nat) (runs : MemberRuns) (m : Module) :
    Prop where
  rows : ∀ t ∈ Table.ofModule, m.rows t = image.layout.rows t
  fields : List.Forall₂ (fun row f => image.fieldDef row = .ok f) image.fields m.fieldList
  methods : List.Forall₂ (fun item d => image.ReadsMethod points? maxBodySize item.2 item.1.1 item.1.2 d)
    (image.listedMethods runs.params) (m.types.flatMap (·.methods))
  params : List.Forall₂ (fun row p => image.paramDef row = .ok p) image.params m.paramList
  tokens : ∀ index < image.methods.length,
    m.method? (.ofRow .methodDef (index + 1)) = (m.types.flatMap (·.methods))[index]?
  fieldRuns : image.fieldRuns = .ok runs.fields ∧ Run.Consecutive 0 runs.fields image.fields.length
  methodRuns : image.methodRuns = .ok runs.methods ∧ Run.Consecutive 0 runs.methods image.methods.length
  paramRuns : image.paramRuns = .ok runs.params ∧ Run.Consecutive 0 runs.params image.params.length

variable {image : ModuleImage} {points? : Option SymbolImage} {maxBodySize : Nat} {runs : MemberRuns} {m : Module}

theorem length_listedMethods (reads : image.ReadsModule points? maxBodySize runs m) :
    (image.listedMethods runs.params).length = image.methods.length := by
  have params := reads.length_params
  unfold listedMethods
  rw [List.length_zipIdx, List.length_zip]
  omega

theorem getElem_listedMethods {paramRuns : List Run} {index : Nat} (inside : index < (image.listedMethods paramRuns).length) :
    image.methods[index]? = some (image.listedMethods paramRuns)[index].1.1 := by
  simp only [listedMethods, List.length_zipIdx, List.length_zip] at inside
  simp only [listedMethods, List.getElem_zipIdx, List.getElem_zip]
  exact List.getElem?_eq_getElem _

theorem ownMethods_eq_slice (image : ModuleImage) (paramRuns : List Run) (r : Run) :
    image.ownMethods paramRuns r = r.slice (image.listedMethods paramRuns) := by
  unfold ownMethods listedMethods
  rw [Run.slice_zip, Run.slice_zipIdx]

/-- Each owner has a run of fields and a run of methods. -/
theorem ReadsModule.map_zip (reads : image.ReadsModule points? maxBodySize runs m) :
    (image.typeDefs.zip (runs.fields.zip runs.methods)).map (·.2.1) = runs.fields ∧
      (image.typeDefs.zip (runs.fields.zip runs.methods)).map (·.2.2) = runs.methods := by
  have fieldCount := reads.length_fields
  have methodCount := reads.length_methods
  have both : (runs.fields.zip runs.methods).length ≤ image.typeDefs.length := by
    rw [List.length_zip]
    omega
  change List.map (Prod.fst ∘ Prod.snd) _ = _ ∧ List.map (Prod.snd ∘ Prod.snd) _ = _
  rw [← List.map_map, ← List.map_map, List.map_snd_zip both]
  exact ⟨List.map_fst_zip (by omega), List.map_snd_zip (by omega)⟩

/-- Each method has a run of parameters. -/
theorem ReadsModule.map_listedMethods (reads : image.ReadsModule points? maxBodySize runs m) :
    (image.listedMethods runs.params).map (·.1.2) = runs.params := by
  have count := reads.length_params
  unfold listedMethods
  change List.map (Prod.snd ∘ Prod.fst) _ = _
  rw [← List.map_map, List.zipIdx_map_fst, List.map_snd_zip (by omega)]

/-- The fields and methods of the types are the items of the runs. -/
theorem ReadsModule.fields (reads : image.ReadsModule points? maxBodySize runs m) :
    List.Forall₂ (fun row f => image.fieldDef row = .ok f) (runs.fields.flatMap (·.slice image.fields)) m.fieldList := by
  have all := forall₂_flatMap reads.types fun item t type => type.fields
  rw [← reads.map_zip.1, List.flatMap_map]
  exact all

theorem ReadsModule.methods (reads : image.ReadsModule points? maxBodySize runs m) :
    List.Forall₂ (fun item d => image.ReadsMethod points? maxBodySize item.2 item.1.1 item.1.2 d)
      (runs.methods.flatMap (·.slice (image.listedMethods runs.params))) (m.types.flatMap (·.methods)) := by
  have all := forall₂_flatMap reads.types fun item t type => type.methods
  simp only [ownMethods_eq_slice] at all
  rw [← reads.map_zip.2, List.flatMap_map]
  exact all

/-- The parameters of the methods are the items of their runs, when no method is missing. -/
theorem ReadsModule.params (reads : image.ReadsModule points? maxBodySize runs m)
    (methods : List.Forall₂ (fun item d => image.ReadsMethod points? maxBodySize item.2 item.1.1 item.1.2 d)
      (image.listedMethods runs.params) (m.types.flatMap (·.methods))) :
    List.Forall₂ (fun row p => image.paramDef row = .ok p) (runs.params.flatMap (·.slice image.params)) m.paramList := by
  have all : List.Forall₂ (fun row p => image.paramDef row = .ok p)
      ((image.listedMethods runs.params).flatMap (·.1.2.slice image.params)) m.paramList :=
    forall₂_flatMap methods fun item d method => method.params
  rw [← reads.map_listedMethods, List.flatMap_map]
  exact all

theorem ReadsModule.methodRunsListed (reads : image.ReadsModule points? maxBodySize runs m) :
    Run.ofStarts .methods (image.listedMethods runs.params).length (image.typeDefs.map (·.firstMethod)) =
      .ok runs.methods := by
  rw [length_listedMethods reads]
  exact reads.methodRuns

theorem ReadsModule.numbered {data : Bytes} (parsed : parse data = .ok image)
    (reads : image.ReadsModule points? maxBodySize runs m) (owned : image.Owned) :
    image.Numbered points? maxBodySize runs m := by
  have fields := reads.fields
  rw [Run.flatMap_slice_of_fromFirst reads.fieldRuns owned.fields] at fields
  have methods := reads.methods
  have first := owned.methods
  rw [← length_listedMethods reads] at first
  rw [Run.flatMap_slice_of_fromFirst reads.methodRunsListed first] at methods
  have params := reads.params methods
  rw [Run.flatMap_slice_of_fromFirst reads.paramRuns owned.params] at params
  have count := methods.length_eq
  rw [length_listedMethods reads] at count
  have few := (bounded_of_parse data image parsed).methods
  have named : ∀ index < image.methods.length,
      m.method? (.ofRow .methodDef (index + 1)) = (m.types.flatMap (·.methods))[index]? := by
    intro index inside
    rw [← ModuleRows.methodList_map_snd, List.length_map] at count
    change _ ≤ 2 ^ 24 - 1 at few
    rw [Module.method?_ofRow (by omega) (by omega), ← ModuleRows.methodList_map_snd, List.getElem?_map]
  refine ⟨fun t member => ?_, fields, methods, params, named, ⟨reads.fieldRuns, (Run.consecutive_iff reads.fieldRuns).mpr owned.fields⟩,
    ⟨reads.methodRuns, (Run.consecutive_iff reads.methodRuns).mpr owned.methods⟩,
    ⟨reads.paramRuns, (Run.consecutive_iff reads.paramRuns).mpr owned.params⟩⟩
  rw [counted_of_parse parsed t]
  cases t with
  | module => rfl
  | typeRef => exact reads.typeRefs.length_eq.symm
  | typeDef => exact reads.length_types
  | field => exact m.length_fieldList.symm.trans fields.length_eq.symm
  | methodDef =>
    rw [List.length_flatMap] at count
    exact count.symm
  | param => exact m.length_paramList.symm.trans params.length_eq.symm
  | memberRef => exact reads.memberRefs.length_eq.symm
  | standAloneSig => exact reads.signatures.length_eq.symm
  | assembly => exact reads.length_assembly
  | assemblyRef => exact reads.assemblyRefs.length_eq.symm
  | moduleRef => exact absurd member (by decide)
  | typeSpec => exact absurd member (by decide)
  | document => exact absurd member (by decide)
  | methodDebugInformation => exact absurd member (by decide)

/-- When no row is missing, every row belongs to an owner. -/
theorem ReadsModule.owned_of_rows {data : Bytes} (parsed : parse data = .ok image)
    (reads : image.ReadsModule points? maxBodySize runs m) (rows : ∀ t ∈ Table.ofModule, m.rows t = image.layout.rows t) :
    image.Owned := by
  have fields := reads.fields.length_eq
  have methods := reads.methods.length_eq
  rw [List.length_flatMap, m.length_fieldList, rows .field (by decide), counted_of_parse parsed] at fields
  have ofMethods : (m.types.flatMap (·.methods)).length = m.rows .methodDef := List.length_flatMap
  rw [List.length_flatMap, ofMethods, rows .methodDef (by decide), counted_of_parse parsed] at methods
  have listed := length_listedMethods reads
  have firstMethod := Run.fromFirst_of_sum reads.methodRunsListed (methods.trans listed.symm)
  have all := reads.methods
  rw [Run.flatMap_slice_of_fromFirst reads.methodRunsListed firstMethod] at all
  have paramCount := (reads.params all).length_eq
  rw [List.length_flatMap, m.length_paramList, rows .param (by decide), counted_of_parse parsed] at paramCount
  rw [listed] at firstMethod
  exact ⟨Run.fromFirst_of_sum reads.fieldRuns fields, firstMethod, Run.fromFirst_of_sum reads.paramRuns paramCount⟩

/-- Only the types and the numbers of rows matter for how the items of a module are numbered. -/
theorem Numbered.of_types {found : Module} (numbered : image.Numbered points? maxBodySize runs m)
    (types : found.types = m.types) (rows : ∀ t ∈ Table.ofModule, found.rows t = m.rows t) :
    image.Numbered points? maxBodySize runs found := by
  obtain ⟨counts, fields, methods, params, tokens, ofFields, ofMethods, ofParams⟩ := numbered
  refine ⟨fun t member => (rows t member).trans (counts t member), ?_, ?_, ?_, ?_, ofFields, ofMethods, ofParams⟩
  · rwa [Module.fieldList, types]
  · rwa [types]
  · rwa [Module.paramList, types]
  · unfold Module.method? Module.methodList
    rw [types]
    exact tokens

end ModuleImage

namespace Module

variable {name : String} {code : Bytes} {symbols? : Option Bytes} {maxBodySize : Nat} {m : Module}

/-- No row of an image is lost or renumbered iff all members in it belong to an owner. -/
theorem read_keeps_rows (read : ReadAs name code symbols? maxBodySize m) :
    ∃ image given?, ModuleImage.parse code = .ok image ∧ symbols?.mapM (symbolsOf name image) = .ok given? ∧
      (image.Owned ↔ ∀ t ∈ Table.ofModule, m.rows t = image.layout.rows t) ∧
        (image.Owned → ∃ runs, image.Numbered (given?.map (·.1)) maxBodySize runs m) ∧
          ∀ column total starts runs, Run.ofStarts column total starts = .ok runs →
            (Run.Consecutive 0 runs total ↔ Run.FromFirst starts total) := by
  obtain ⟨image, given?, plain, parts⟩ := read.parts
  obtain ⟨runs, reads⟩ := ModuleImage.readsModule parts.module
  have numbered : image.Owned → image.Numbered (given?.map (·.1)) maxBodySize runs m :=
    fun owned => (reads.numbered parts.parsed owned).of_types parts.types_eq fun t member => parts.rows_eq member
  refine ⟨image, given?, parts.parsed, parts.symbols, ⟨fun owned => (numbered owned).rows, fun same => ?_⟩,
    fun owned => ⟨runs, numbered owned⟩, fun column total starts runs accepted => Run.consecutive_iff accepted⟩
  exact reads.owned_of_rows parts.parsed fun t member => (parts.rows_eq member).symm.trans (same t member)

end Module

namespace Sample

/-- A module with a row in each table of members. -/
def members : Module :=
  { name := "a"
    runtimeVersion := "v4"
    types := [{ flags := 0, namespaceName := "", name := "T", baseType := .null, fields := [⟨6, "f", [6, 8]⟩]
                methods := [⟨0x16, 0, "m", [0, 1, 1, 8], [⟨0, 1, "p"⟩], none⟩] }] }

def membersImage : Bytes := (members.emit fun _ => .zero).toOption.elim [] (·.code)

/-- The image of `members`, but the methods of the type start at row two. -/
def unownedImage : Bytes := membersImage.set 178 2

end Sample

theorem Module.read_keeps_rows_sample : ∃ m image, readDefinitions "a" Sample.membersImage = .ok m ∧
    ModuleImage.parse Sample.membersImage = .ok image ∧ image.Owned ∧
      m.rows .field = 1 ∧ m.rows .methodDef = 1 ∧ m.rows .param = 1 := by
  have answers : ((readDefinitions "a" Sample.membersImage).toOption.any fun m =>
      (ModuleImage.parse Sample.membersImage).toOption.any fun image =>
        Table.ofModule.all (fun t => m.rows t == image.layout.rows t) &&
          m.rows .field == 1 && m.rows .methodDef == 1 && m.rows .param == 1) = true := by decide +kernel
  obtain ⟨m, read, inside⟩ := Outcome.exists_of_any answers
  obtain ⟨found, parsed, counts⟩ := Outcome.exists_of_any inside
  simp only [Bool.and_eq_true, beq_iff_eq, List.all_eq_true] at counts
  obtain ⟨⟨⟨same, fields⟩, methods⟩, params⟩ := counts
  obtain ⟨image, given?, answered, -, owned, -, -⟩ := read_keeps_rows (.definitions read)
  cases answered.symm.trans parsed
  exact ⟨m, found, read, parsed, owned.mpr same, fields, methods, params⟩

/-- The reader accepts an image whose only method belongs to no type, and leaves the method out. -/
theorem Module.read_loses_row : ∃ m image, readDefinitions "a" Sample.unownedImage = .ok m ∧
    ModuleImage.parse Sample.unownedImage = .ok image ∧ image.layout.rows .methodDef = 1 ∧ m.rows .methodDef = 0 := by
  have read : ((readDefinitions "a" Sample.unownedImage).toOption.any fun m => m.rows .methodDef == 0) = true := by
    decide +kernel
  have parsed : ((ModuleImage.parse Sample.unownedImage).toOption.any fun image =>
      image.layout.rows .methodDef == 1) = true := by
    decide +kernel
  obtain ⟨m, read, lost⟩ := Outcome.exists_of_any read
  obtain ⟨image, parsed, one⟩ := Outcome.exists_of_any parsed
  exact ⟨m, image, read, parsed, beq_iff_eq.mp one, beq_iff_eq.mp lost⟩

end CilWeaver
