import CilWeaver.Proofs.OwnedRows

/-!
Which images that were written can be loaded without their symbols. The version and the path of the symbol file
may have zero characters here: a reader stops at the first one.
-/

namespace CilWeaver

open Code Step

namespace Module

/-- The module with another version text and another symbol file. -/
def withTexts (m : Module) (version : String) (symbols? : Option SymbolFile) : Module :=
  { m with runtimeVersion := version, symbols? }

variable {m : Module} {version : String} {symbols? : Option SymbolFile} {token : Token}

theorem rows_withTexts {t : Table} (other : t ≠ .methodDebugInformation) : (m.withTexts version symbols?).rows t = m.rows t := by
  cases t with
  | methodDebugInformation => exact absurd rfl other
  | _ => rfl

theorem contains_withTexts {t : Table} (named : token.table? = some t) (other : t ≠ .methodDebugInformation) :
    (m.withTexts version symbols?).contains token = m.contains token := by
  unfold contains
  rw [named]
  simp only [rows_withTexts other]

theorem containsInImage_withTexts (token : Token) :
    (m.withTexts version symbols?).containsInImage token = m.containsInImage token := by
  unfold containsInImage
  cases named : token.table? with
  | none => simp
  | some t =>
    by_cases symbols : t = .methodDebugInformation
    · subst symbols
      rw [Option.any_some, show Table.ofModule.contains .methodDebugInformation = false from rfl, Bool.and_false,
        Bool.and_false]
    · rw [contains_withTexts named symbols]

/-- A module with symbols again has the same rows. -/
theorem contains_withSymbols (present : symbols?.isSome = m.symbols?.isSome) (token : Token) :
    (m.withTexts version symbols?).contains token = m.contains token := by
  unfold contains
  cases named : token.table? with
  | none => rfl
  | some t =>
    have rows : (m.withTexts version symbols?).rows t = m.rows t := by
      by_cases symbols : t = .methodDebugInformation
      · subst symbols
        change (if symbols?.isSome = true then _ else 0) = _
        rw [present]
        rfl
      · exact rows_withTexts symbols
    simp only [rows]

theorem contains_of_inImage (inImage : m.containsInImage token = true) : m.contains token = true :=
  (Bool.and_eq_true_iff.mp inImage).1

end Module

section

variable {m : Module} {rows : ModuleRows} {d : ModuleDraft} {b : TableStreamBuilder} {version : String}
  {symbols? : Option SymbolFile}

theorem hasReference_withTexts {kind : CodedKind} {token : Token} {index : CodedIndex}
    (has : ModuleDraft.HasReference m kind token index) :
    ModuleDraft.HasReference (m.withTexts version symbols?) kind token index := by
  obtain ⟨contained, coded⟩ := has
  obtain ⟨-, -, -, candidate⟩ := CodedIndex.ofToken_eq_ok coded
  have others : ∀ t ∈ kind.tables, t ≠ .methodDebugInformation := by cases kind <;> decide
  refine ⟨?_, coded⟩
  rwa [Module.contains_withTexts (table?_of_coded coded) (others _ candidate)]

theorem entryPointCheck_withTexts :
    ModuleWriter.entryPointCheck (m.withTexts version symbols?) = ModuleWriter.entryPointCheck m := by
  unfold ModuleWriter.entryPointCheck
  change (if (m.entryPoint.isNull || (m.entryPoint.isIn .methodDef && (m.withTexts version symbols?).contains m.entryPoint)) =
    true then _ else _) = _
  by_cases table : m.entryPoint.isIn .methodDef = true
  · rw [Module.contains_withTexts (Token.table?_of_isIn table) (by decide)]
    rfl
  · rw [Bool.not_eq_true] at table
    rw [table, Bool.false_and, Bool.false_and]
    rfl

/-- The rows of a module describe it with other texts too, unless its bodies name rows of its symbols. -/
theorem Written.withTexts (written : Written m rows d b) (named : ∀ t ∈ m.types, ∀ method ∈ t.methods,
      method.AllBodies (MethodBody.Named (m.withTexts version symbols?))) : Written (m.withTexts version symbols?) rows d b := by
  have described := written.described
  have bodies : ∀ method own, method.AllBodies (MethodBody.Named (m.withTexts version symbols?)) → d.HasMethod m method own →
      d.HasMethod (m.withTexts version symbols?) method own := by
    intro method own named has
    refine { has with body := ?_ }
    have body := has.body
    unfold ModuleWriter.HasBody at body ⊢
    unfold MethodDef.AllBodies at named
    cases shape : method.body? with
    | none =>
      rw [shape] at body
      exact body
    | some b =>
      rw [shape] at body
      obtain ⟨layout, checked, place⟩ := body
      exact ⟨layout, ⟨checked.valid, checked.placed, named b shape⟩, place⟩
  have types : List.Forall₂ (d.HasType (m.withTexts version symbols?)) m.types rows.types := by
    refine ((List.forall₂_and_left _ _).mpr ⟨named, described.types⟩).imp fun t own both => ?_
    obtain ⟨named, has⟩ := both
    refine ⟨has.flags, has.name, has.namespaceName, ?_, has.fields, ?_⟩
    · have baseType := has.baseType
      unfold ModuleDraft.HasBaseType at baseType ⊢
      by_cases null : t.baseType.isNull = true
      · rw [if_pos null] at baseType ⊢
        exact baseType
      · rw [if_neg null] at baseType ⊢
        exact hasReference_withTexts baseType
    · exact ((List.forall₂_and_left _ _).mpr ⟨named, has.methods⟩).imp fun method own both => bodies method own both.1 both.2
  refine ⟨⟨?_, ⟨described.module.generation, described.module.name, described.module.mvid, described.module.unedited⟩,
    ?_, types, described.starts, ?_, described.signatures, described.assembly,
    described.assemblyRefs⟩, written.sound, written.layout, written.contains⟩
  · rw [entryPointCheck_withTexts]
    exact described.entryPoint
  · exact described.typeRefs.imp fun r row has => ⟨hasReference_withTexts has.scope, has.name, has.namespaceName⟩
  · exact described.memberRefs.imp fun r row has => ⟨hasReference_withTexts has.parent, has.name, has.signature⟩

/-- Every member of an image that was written belongs to an owner. -/
theorem owned_ofDraft (written : Written m rows d b) (record? : Option CodeViewRecord) :
    (ModuleImage.ofDraft m rows d b record?).Owned := by
  have described := written.described
  obtain ⟨fields, methods, params⟩ := described.starts
  refine ⟨?_, ?_, ?_⟩
  · change Run.FromFirst ((rows.types.map (·.row)).map (·.firstField)) (rows.types.flatMap (·.fields)).length
    rw [List.map_map, ← described.fields.length_eq, List.length_flatMap]
    exact fields ▸ Run.fromFirst_startsFrom _
  · change Run.FromFirst ((rows.types.map (·.row)).map (·.firstMethod)) (rows.methods.map (·.row)).length
    rw [List.map_map, List.length_map, ← described.methods.length_eq, List.length_flatMap]
    exact methods ▸ Run.fromFirst_startsFrom _
  · change Run.FromFirst ((rows.methods.map (·.row)).map (·.firstParam)) (rows.methods.flatMap (·.params)).length
    rw [List.map_map, ← described.params.length_eq, List.length_flatMap]
    exact params ▸ Run.fromFirst_startsFrom _

/-- A body that is read where one was written is one that a reader accepts, whatever its source points. -/
theorem readable_of_bodyWithSymbols {maxBodySize : Nat} {record? : Option CodeViewRecord} {points? : Option SymbolImage}
    {position : Nat} {text : String} {address : UInt32} {offsets? : Option (List Nat)} {method : MethodDef}
    {found : Option MethodBody} (written : Written m rows d b)
    (shows' : (ModuleImage.ofDraft m rows d b record?).Shows d) (has : ModuleWriter.HasBody m method.body? address offsets? d)
    (read : (ModuleImage.ofDraft m rows d b record?).bodyWithSymbols points? maxBodySize position text address = .ok found) :
    method.AllBodies (MethodBody.Readable m maxBodySize) := by
  intro own shape
  rw [shape] at has
  obtain ⟨-, checked, stored, aligned, reserved⟩ := has
  have named : ¬ (address == 0) = true := by
    rw [beq_iff_eq]
    rintro rfl
    exact absurd reserved (by decide)
  rw [bodyWithSymbols_eq, if_neg named] at read
  obtain ⟨found?, bodies, -⟩ := Outcome.bind_eq_ok.mp read
  obtain ⟨body, answer, rfl⟩ := Outcome.map_eq_ok.mp bodies
  obtain ⟨types, locals, accepts, -⟩ := (ModuleImage.body_eq_ok shows' checked stored aligned reserved).mp answer
  exact (readable_iff written record?).mp ⟨⟨types, (locals_ofDraft written shows' _ _ _).mp locals⟩, accepts⟩

/-- A module that is read from an image that was written has bodies that a reader accepts, with symbols or
    without. -/
theorem readable_of_module {maxBodySize : Nat} {record? : Option CodeViewRecord} {points? : Option SymbolImage}
    {found : Module} (written : Written m rows d b) (shows' : (ModuleImage.ofDraft m rows d b record?).Shows d)
    (read : (ModuleImage.ofDraft m rows d b record?).module points? maxBodySize = .ok found) :
    ∀ t ∈ m.types, ∀ method ∈ t.methods, method.AllBodies (MethodBody.Readable m maxBodySize) := by
  obtain ⟨runs, reads⟩ := ModuleImage.readsModule read
  have listed := ModuleImage.length_listedMethods reads
  have first := (owned_ofDraft written record?).methods
  rw [← listed] at first
  have methods := reads.methods
  rw [Run.flatMap_slice_of_fromFirst reads.methodRunsListed first] at methods
  intro t type method member
  obtain ⟨index, inside, rfl⟩ := List.getElem_of_mem (List.mem_flatMap.mpr ⟨t, type, member⟩)
  have described := List.forall₂_iff_get.mp written.described.methods
  have place : index < rows.methods.length := described.1 ▸ inside
  have stored := described.2 index inside place
  have bound : index < ((ModuleImage.ofDraft m rows d b record?).listedMethods runs.params).length := by
    rw [listed]
    change index < (rows.methods.map (·.row)).length
    rwa [List.length_map]
  have answered := (List.forall₂_iff_get.mp methods).2 index bound (methods.length_eq ▸ bound)
  obtain ⟨text, body⟩ := answered.body
  have row : ((ModuleImage.ofDraft m rows d b record?).listedMethods runs.params)[index].1.1 = rows.methods[index].row := by
    apply Option.some.inj
    rw [← ModuleImage.getElem_listedMethods]
    change (rows.methods.map (·.row))[index]? = _
    rw [List.getElem?_map, List.getElem?_eq_getElem place, Option.map_some]
  rw [List.get_eq_getElem, row] at body
  exact readable_of_bodyWithSymbols written shows' stored.body body

end

namespace Module

variable {m : Module} {e : EmittedModule} {name : String} {maxBodySize : Nat}

theorem named_withSymbols {version : String} {symbols? : Option SymbolFile} (present : symbols?.isSome = m.symbols?.isSome)
    {b : MethodBody} (named : b.Named m) : b.Named (m.withTexts version symbols?) := by
  have contains : (m.withTexts version symbols?).contains = m.contains := by
    funext token
    exact contains_withSymbols present token
  obtain ⟨operands, catches, signature⟩ := named
  rw [← contains] at operands catches signature
  exact ⟨operands, catches, signature⟩

theorem readable_withTexts (version : String) (symbols? : Option SymbolFile) {b : MethodBody} :
    b.Readable (m.withTexts version symbols?) maxBodySize ↔ b.Readable m maxBodySize := by
  have contains : (m.withTexts version symbols?).containsInImage = m.containsInImage := by
    funext token
    exact containsInImage_withTexts token
  constructor
  · rintro ⟨size, reaches, operands, catches, locals⟩
    rw [contains] at operands catches
    exact ⟨size, reaches, operands, catches, locals⟩
  · rintro ⟨size, reaches, operands, catches, locals⟩
    rw [← contains] at operands catches
    exact ⟨size, reaches, operands, catches, locals⟩

theorem named_withTexts (version : String) (symbols? : Option SymbolFile) {b : MethodBody} (named : b.Named m)
    (readable : b.Readable m maxBodySize) : b.Named (m.withTexts version symbols?) := by
  obtain ⟨-, -, operands, catches, -⟩ := (readable_withTexts version symbols?).mpr readable
  refine ⟨fun i member token shape => contains_of_inImage (operands i member token shape), fun r member type kind => ?_,
    named.signature.imp_right fun ⟨table, contained⟩ => ⟨table, ?_⟩⟩
  · exact contains_of_inImage (Bool.and_eq_true_iff.mp (catches r member type kind)).2
  · rwa [contains_withTexts (Token.table?_of_isIn table) (by decide)]

/-- What a reader asks of a module when it does not look at its symbols. -/
theorem readable_withoutSymbols (version : String) : (m.withTexts version none).Readable maxBodySize ↔
    (∀ t ∈ Table.ofModule, m.rows t ≤ maxRows) ∧
      ∀ t ∈ m.types, ∀ method ∈ t.methods, method.AllBodies (MethodBody.Readable m maxBodySize) := by
  have rows : ∀ t ∈ Table.ofModule, (m.withTexts version none).rows t = m.rows t := fun t member =>
    rows_withTexts (ne_of_mem_of_not_mem member (by decide))
  constructor
  · rintro ⟨few, -, bodies⟩
    refine ⟨fun t member => rows t member ▸ few t member, fun t type method member own shape => ?_⟩
    exact (readable_withTexts _ _).mp (bodies t type method member own shape)
  · rintro ⟨few, bodies⟩
    refine ⟨fun t member => (rows t member).symm ▸ few t member, nofun, fun t type method member own shape => ?_⟩
    exact (readable_withTexts _ _).mpr (bodies t type method member own shape)

/-- The image of a module is read without symbols iff a reader accepts what the image holds. -/
theorem ofImage_eq_ok {rows : ModuleRows} {d : ModuleDraft} {b : TableStreamBuilder} {record? : Option CodeViewRecord}
    (emitted : m.EmittedAs e rows d b record?) {found : Module} :
    ofImages name maxBodySize e.code none = .ok found ↔
      found = (m.withTexts (beforeNul m.runtimeVersion) none).reread ∧
        (m.withTexts (beforeNul m.runtimeVersion) none).Readable maxBodySize ∧ e.code.length < 2 ^ 32 := by
  obtain ⟨written, code, -⟩ := emitted
  have checked := checked_of_written written
  -- the module without symbols has no rows for them, so that it is written only if no operand names one
  have withoutSymbols : (m.withTexts (beforeNul m.runtimeVersion) none).Readable maxBodySize →
      Written (m.withTexts (beforeNul m.runtimeVersion) none) rows d b := by
    intro readable
    obtain ⟨-, bodies⟩ := (readable_withoutSymbols _).mp readable
    apply written.withTexts
    intro t type method member own shape
    exact named_withTexts _ _ (checked t type method member own shape).named (bodies t type method member own shape)
  have withSymbols : Written (m.withTexts (beforeNul m.runtimeVersion) m.symbols?) rows d b := by
    apply written.withTexts
    intro t type method member own shape
    exact named_withSymbols rfl (checked t type method member own shape).named
  have tells : ∀ position method, (m.types.flatMap (·.methods))[position]? = some method →
      Tells (m.withTexts (beforeNul m.runtimeVersion) none) none position method := fun _ _ _ => rfl
  unfold ofImages
  rw [Outcome.bind_eq_ok]
  constructor
  · rintro ⟨image, parsed, read⟩
    obtain ⟨rfl, small, few⟩ := (parse_image_beforeNul withSymbols rfl code).mp parsed
    have bodies := readable_of_module withSymbols (shows_of_image code small) read
    have readable : (m.withTexts (beforeNul m.runtimeVersion) none).Readable maxBodySize := by
      apply (readable_withoutSymbols _).mpr
      refine ⟨fun t member => ?_, fun t type method member own shape => ?_⟩
      · rw [← rows_withTexts (ne_of_mem_of_not_mem member (by decide))]
        exact few t member
      · exact (readable_withTexts _ _).mp (bodies t type method member own shape)
    obtain ⟨rfl, -⟩ := (module_eq_ok (withoutSymbols readable) (shows_of_image code small) tells found).mp read
    exact ⟨rfl, readable, small⟩
  · rintro ⟨rfl, readable, small⟩
    have written' := withoutSymbols readable
    refine ⟨_, (parse_image_beforeNul written' rfl code).mpr ⟨rfl, small, readable.rows⟩, ?_⟩
    exact (module_eq_ok written' (shows_of_image code small) tells _).mpr ⟨rfl, readable.bodies⟩

/-- The module with its texts as they are read. -/
def readTexts (m : Module) : Module :=
  m.withTexts (beforeNul m.runtimeVersion) (m.symbols?.map fun file => { file with path := beforeNul file.path })

theorem SymbolsEmittedAs.readTexts {rows : ModuleRows} {data : Bytes} {record? : Option CodeViewRecord}
    (symbols : m.SymbolsEmittedAs rows data record?) : m.readTexts.SymbolsEmittedAs rows data (recordRead? record?) := by
  have counts : m.readTexts.rowCounts = m.rowCounts := by
    unfold rowCounts
    refine congrArg (List.filter _) (List.map_congr_left fun t member => ?_)
    exact congrArg (Prod.mk t) (rows_withTexts (ne_of_mem_of_not_mem member (by decide)))
  cases record? with
  | none =>
    obtain ⟨absent, empty⟩ := symbols
    exact ⟨by rw [Module.readTexts, withTexts, absent, Option.map_none], empty⟩
  | some record =>
    obtain ⟨present, symbolRows, debugs, draft, builder, written, image⟩ := symbols
    refine ⟨by rw [Module.readTexts, withTexts, present, Option.map_some], symbolRows, debugs, draft, builder, ?_, ?_⟩
    · obtain ⟨⟨documents, stored, methods⟩, sound, layout, contains⟩ := written
      exact ⟨⟨documents, stored, methods⟩, sound, layout, contains⟩
    · rw [← image]
      unfold SymbolStreams.ofDraft
      rw [counts]
      rfl

/-- The images of any module are read as its normal form, with its texts as they are read. -/
theorem ofImages_emitted {rows : ModuleRows} {d : ModuleDraft} {b : TableStreamBuilder} {record? : Option CodeViewRecord}
    (emitted : m.EmittedAs e rows d b record?) {found : Module} :
    ofImages name maxBodySize e.code (CompiledModule.symbols? ⟨name, e.code, e.symbols⟩) = .ok found ↔
      found = m.readTexts.reread ∧ m.readTexts.Readable maxBodySize ∧ e.code.length < 2 ^ 32 ∧
        e.symbols.length < 2 ^ 32 := by
  obtain ⟨written, code, symbols⟩ := emitted
  have named : ∀ t ∈ m.types, ∀ method ∈ t.methods, method.AllBodies (MethodBody.Named m.readTexts) := by
    intro t type method member own shape
    exact named_withSymbols Option.isSome_map (checked_of_written written t type method member own shape).named
  exact ofImages_beforeNul (written.withTexts named) rfl code symbols.readTexts

/-- What was written can be loaded, unless the image is beyond the reach of offsets, an operand names a row of the
    symbols or a catch clause names no type. -/
theorem loads_iff {digest : Bytes → ImageId} (emitted : m.emit digest = .ok e) (few : ∀ t ∈ Table.ofModule, m.rows t ≤ maxRows)
    (bodies : ∀ t ∈ m.types, ∀ method ∈ t.methods, method.AllBodies fun b =>
      codeSize (promote b.code) ≤ defaultMaxBodySize ∧ ∃ types, m.localTypes b.localSignature = .ok types) :
    (∃ found, readDefinitions name e.code = .ok found) ↔ e.code.length < 2 ^ 32 ∧
      ∀ t ∈ m.types, ∀ method ∈ t.methods, method.AllBodies MethodBody.Loadable := by
  obtain ⟨rows, d, b, record?, written⟩ := emittedAs_of_emit emitted
  have checked := checked_of_written written.written
  unfold readDefinitions
  simp only [mapError_eq_ok, ofImage_eq_ok written, exists_eq_left, readable_withoutSymbols]
  constructor
  · rintro ⟨⟨-, readable⟩, small⟩
    exact ⟨small, fun t type method member own shape => (readable t type method member own shape).loadable⟩
  · rintro ⟨small, loadable⟩
    refine ⟨⟨few, fun t type method member own shape => ?_⟩, small⟩
    obtain ⟨size, locals⟩ := bodies t type method member own shape
    exact (checked t type method member own shape).readable (loadable t type method member own shape) size locals (by decide)

end Module

namespace Sample

/-- A body that catches what the token names. -/
def catchingBody (type : Token) : MethodBody :=
  { code := [.nop, .nop, .ret], regions := [⟨.catches type, 0, 1, 1, 2⟩] }

def catching (type : Token) : Module :=
  { name := "a"
    runtimeVersion := "v4"
    types := [{ flags := 0, namespaceName := "", name := "T", baseType := .null, fields := []
                methods := [{ flags := 0x16, implFlags := 0, name := "m", signature := [0, 0, 1], params := []
                              body? := some (catchingBody type) }] }] }

theorem allBodies_catching {p : MethodBody → Prop} {type : Token} (own : p (catchingBody type)) :
    ∀ t ∈ (catching type).types, ∀ method ∈ t.methods, method.AllBodies p := by
  simp [catching, MethodDef.AllBodies, own]

theorem loadable_catchingBody : (catchingBody (.ofRow .typeDef 1)).Loadable := by
  constructor
  · simp [catchingBody, Instruction.nop, Instruction.ret, OperandAt.token?]
  · simp [catchingBody]
    decide

end Sample

theorem Module.loads_iff_sample : ∃ e found, (Sample.catching (.ofRow .typeDef 1)).emit (fun _ => .zero) = .ok e ∧
    readDefinitions "a" e.code = .ok found := by
  have answers : (((Sample.catching (.ofRow .typeDef 1)).emit fun _ => .zero).toOption.any fun e =>
      decide (e.code.length < 2 ^ 32)) = true := by decide +kernel
  obtain ⟨e, emitted, small⟩ := Outcome.exists_of_any answers
  have readable : codeSize (promote (Sample.catchingBody (.ofRow .typeDef 1)).code) ≤ defaultMaxBodySize := by decide
  have loads : (∃ found, readDefinitions "a" e.code = .ok found) ↔ _ :=
    loads_iff emitted (by decide) (Sample.allBodies_catching ⟨readable, [], rfl⟩)
  obtain ⟨found, read⟩ := loads.mpr ⟨of_decide_eq_true small, Sample.allBodies_catching Sample.loadable_catchingBody⟩
  exact ⟨e, found, emitted, read⟩

/-- A catch clause that names a method is written, and the image with it cannot be loaded. -/
theorem Module.emitted_catch_refused : ∃ e, (Sample.catching (.ofRow .methodDef 1)).emit (fun _ => .zero) = .ok e ∧
    ∀ found, readDefinitions "a" e.code ≠ .ok found := by
  have answers : (((Sample.catching (.ofRow .methodDef 1)).emit fun _ => .zero).toOption.any fun e =>
      (readDefinitions "a" e.code).toOption.isNone) = true := by decide +kernel
  obtain ⟨e, emitted, refused⟩ := Outcome.exists_of_any answers
  refine ⟨e, emitted, fun found read => ?_⟩
  rw [read] at refused
  cases refused

end CilWeaver
