import CilWeaver.Proofs.ParsedImages
import CilWeaver.Proofs.ReadBodies
import CilWeaver.Proofs.RoundTrip
import CilWeaver.Proofs.Runs
import CilWeaver.Proofs.WovenBodies
import Mathlib.Algebra.Order.BigOperators.Group.List
import Mathlib.Algebra.Order.Group.Nat

/-!
What reading a module tells about it: it has no more rows than tokens can name, and its bodies can be
read again.
-/

namespace CilWeaver

open Code Step

namespace ModuleImage

variable {image : ModuleImage} {m : Module} {maxBodySize : Nat}

theorem inImage_of_contains (bounded : image.Bounded) {token : Token} (contained : image.contains token = true) :
    MethodBody.InImage token := by
  unfold contains at contained
  unfold MethodBody.InImage
  cases shape : token.table? with
  | none =>
    rw [shape] at contained
    cases contained
  | some t =>
    rw [shape] at contained
    simp only [Bool.and_eq_true, decide_eq_true_eq] at contained
    have member := bounded.tables t (Nat.le_trans contained.1 contained.2)
    rw [Option.any_some]
    exact List.contains_iff_mem.mpr member

theorem answers_locals (signatures : image.signatures.mapM (fun row => image.blob row.signature) = .ok m.localSignatures)
    (method : String) (token : Token) :
    Outcome.Answers (image.locals method token) fun types => m.localTypes token = .ok types := by
  intro types h
  unfold ModuleImage.locals at h
  unfold Module.localTypes
  by_cases null : token.isNull = true
  · rw [if_pos null] at h ⊢
    exact h
  · rw [if_neg null] at h ⊢
    by_cases table : token.isIn .standAloneSig = true
    · rw [if_pos table] at h ⊢
      have all := List.forall₂_iff_get.mp (Outcome.mapM_eq_ok.mp signatures)
      cases named : Module.rowOf? image.signatures token.row with
      | none =>
        simp only [named] at h
        cases h
      | some row =>
        simp only [named] at h
        obtain ⟨blob, read, parsed⟩ := Outcome.bind_eq_ok.mp h
        cases position : token.row with
        | zero =>
          rw [position] at named
          cases named
        | succ index =>
          rw [position] at named
          obtain ⟨inside, same⟩ := List.getElem?_eq_some_iff.mp named
          have own := all.2 index inside (all.1 ▸ inside)
          rw [List.get_eq_getElem, List.get_eq_getElem, same, read] at own
          have known : m.localSignatures[index]? = some blob := by
            rw [List.getElem?_eq_getElem (all.1 ▸ inside), ← Except.ok.inj own]
          have same : Module.rowOf? m.localSignatures (index + 1) = some blob := known
          simp only [same]
          exact parsed
    · rw [if_neg table] at h
      cases h

theorem answers_ofClause (contains : Token → Bool) (decoded : DecodedBody) (method : String) (c : Clause) :
    Outcome.Answers (Region.ofClause contains decoded method c) fun r =>
      ∀ type, r.kind = .catches type → Region.catchTables.any type.isIn = true := by
  intro r accepted type same
  exact (Bool.and_eq_true_iff.mp (Region.catchable_of_ofClause accepted type same)).1

section

variable (bounded : image.Bounded)
  (signatures : image.signatures.mapM (fun row => image.blob row.signature) = .ok m.localSignatures)

include bounded signatures

theorem answers_bodyWithSymbols (symbols? : Option SymbolImage) (position : Nat) (method : String) (address : UInt32) :
    Outcome.Answers (image.bodyWithSymbols symbols? maxBodySize position method address) fun body? =>
      ∀ b, body? = some b → b.Accepted m maxBodySize := by
  intro body? h b shape
  obtain ⟨decoded, ⟨raw, short, decode, clauses⟩, code, operands, locals, -⟩ := readsBody position method address body? h b shape
  obtain ⟨size, settled⟩ := settled_of_decode decode
  have checked := (checkOperands_eq_ok (length_offsets_of_decode decode)).mp operands
  rw [← code] at size settled checked
  exact ⟨by omega, settled, fun i member token named => inImage_of_contains bounded (checked i member token named),
    Outcome.Answers.mapM (answers_ofClause image.contains decoded method) raw.clauses _ clauses,
    b.locals, answers_locals signatures method b.localSignature _ locals⟩

theorem answers_methodDef (symbols? : Option SymbolImage) (owner : TypeDef) (position : Nat) (row : MethodDefRow)
    (params : Run) :
    Outcome.Answers (image.methodDef symbols? maxBodySize owner position row params) fun d =>
      d.params.length = (params.slice image.params).length ∧ d.AllBodies (MethodBody.Accepted m maxBodySize) := by
  unfold ModuleImage.methodDef
  exact .bind fun name => .bind_of (.length_mapM _ _) fun params count =>
    .bind_of (answers_bodyWithSymbols bounded signatures symbols? position _ row.address) fun body? accepted =>
      .bind fun signature => .pure ⟨count, accepted⟩

theorem answers_typeDef {paramRuns : List Run} (count : paramRuns.length = image.methods.length)
    (symbols? : Option SymbolImage) (row : TypeDefRow) (fields methods : Run) :
    Outcome.Answers (image.typeDef symbols? maxBodySize paramRuns row fields methods) fun t =>
      t.fields.length = (fields.slice image.fields).length ∧
        t.methods.map (·.params.length) = (methods.slice paramRuns).map (fun r => (r.slice image.params).length) ∧
          ∀ d ∈ t.methods, d.AllBodies (MethodBody.Accepted m maxBodySize) := by
  unfold ModuleImage.typeDef
  refine .bind fun namespaceName => .bind fun name => .bind_of (.length_mapM _ _) fun found fieldCount => ?_
  intro t h
  obtain ⟨own, read, last⟩ := Outcome.bind_eq_ok.mp h
  cases Outcome.pure_eq_ok.mp last
  have all := (Outcome.mapM_eq_ok.mp read).imp fun item d found =>
    answers_methodDef bounded signatures symbols? _ item.2 item.1.1 item.1.2 d found
  refine ⟨fieldCount, ?_, fun d member => ?_⟩
  · have lengths := map_eq_map all fun item d found => found.1.symm
    have same : (methods.slice paramRuns).length ≤ (methods.slice image.methods).length := by
      rw [Run.slice, Run.slice, List.length_take, List.length_take, List.length_drop, List.length_drop, count]
    change List.map ((fun r : Run => (r.slice image.params).length) ∘ Prod.snd ∘ Prod.fst) _ = _ at lengths
    rw [← List.map_map, ← List.map_map, List.zipIdx_map_fst, List.map_snd_zip same] at lengths
    exact lengths.symm
  · obtain ⟨item, -, found⟩ := forall₂_of_mem all.flip member
    exact found.2

end

/-- The members of types that were read from consecutive runs. -/
structure HoldsTypes (image : ModuleImage) (m : Module) : Prop where
  fields : (m.types.map (·.fields.length)).sum ≤ image.fields.length
  methods : (m.types.map (·.methods.length)).sum ≤ image.methods.length
  params : (m.methodList.map (·.2.params.length)).sum ≤ image.params.length

theorem holdsTypes {fieldRuns methodRuns paramRuns : List Run} (fields : image.fieldRuns = .ok fieldRuns)
    (methods : image.methodRuns = .ok methodRuns) (params : image.paramRuns = .ok paramRuns)
    (read : List.Forall₂ (fun (item : TypeDefRow × Run × Run) (t : TypeDef) =>
      t.fields.length = (item.2.1.slice image.fields).length ∧
        t.methods.map (·.params.length) = (item.2.2.slice paramRuns).map fun r => (r.slice image.params).length)
      (image.typeDefs.zip (fieldRuns.zip methodRuns)) m.types) : image.HoldsTypes m := by
  have fieldCount := Run.length_fromRow fields
  have methodCount := Run.length_fromRow methods
  have paramCount := Run.length_fromRow params
  rw [List.length_map] at fieldCount methodCount paramCount
  have both : (fieldRuns.zip methodRuns).length ≤ image.typeDefs.length := by
    rw [List.length_zip]
    omega
  have fieldLengths := map_eq_map read fun item t own => own.1.symm
  have paramLengths := map_eq_map read fun item t own => own.2.symm
  change List.map ((fun r : Run => (r.slice image.fields).length) ∘ Prod.fst ∘ Prod.snd) _ = _ at fieldLengths
  change List.map ((fun r : Run => (r.slice paramRuns).map fun r => (r.slice image.params).length) ∘ Prod.snd ∘ Prod.snd) _ =
    _ at paramLengths
  rw [← List.map_map, ← List.map_map, List.map_snd_zip both, List.map_fst_zip (by omega)] at fieldLengths
  rw [← List.map_map, ← List.map_map, List.map_snd_zip both, List.map_snd_zip (by omega)] at paramLengths
  have methods' : Run.ofStarts .methods paramRuns.length (image.typeDefs.map (·.firstMethod)) = .ok methodRuns := by
    rw [paramCount]
    exact methods
  refine ⟨?_, ?_, ?_⟩
  · rw [← fieldLengths]
    exact Run.sum_slices_le fields
  · have lengths := congrArg (List.map List.length) paramLengths
    simp only [List.map_map, Function.comp_def, List.length_map] at lengths
    rw [← lengths, ← paramCount]
    exact Run.sum_slices_le methods'
  · have all : m.methodList.map (·.2.params.length) =
        (methodRuns.flatMap (·.slice paramRuns)).map fun r => (r.slice image.params).length := by
      unfold Module.methodList
      rw [List.map_flatMap, List.map_flatMap, List.flatMap_def, List.flatMap_def, paramLengths]
      simp only [List.map_map, Function.comp_def]
    have within := ((Run.sublist_flatMap_slice methods').map fun r => (r.slice image.params).length).sum_le_sum
      fun _ _ => Nat.zero_le _
    rw [all]
    exact within.trans (Run.sum_slices_le params)

theorem answers_module (bounded : image.Bounded) (symbols? : Option SymbolImage) :
    Outcome.Answers (image.module symbols? maxBodySize) fun m => m.runtimeVersion = image.version ∧
      m.documents = [] ∧ m.symbols? = none ∧ (∀ t ∈ Table.ofModule, m.rows t ≤ maxRows) ∧
        ∀ t ∈ m.types, ∀ d ∈ t.methods, d.AllBodies (MethodBody.Accepted m maxBodySize) := by
  intro m h
  unfold ModuleImage.module at h
  obtain ⟨name, -, h⟩ := Outcome.bind_eq_ok.mp h
  obtain ⟨mvid, -, h⟩ := Outcome.bind_eq_ok.mp h
  obtain ⟨assembly?, -, h⟩ := Outcome.bind_eq_ok.mp h
  obtain ⟨assemblyRefs, assemblies, h⟩ := Outcome.bind_eq_ok.mp h
  obtain ⟨typeRefs, typeReferences, h⟩ := Outcome.bind_eq_ok.mp h
  obtain ⟨memberRefs, memberReferences, h⟩ := Outcome.bind_eq_ok.mp h
  obtain ⟨localSignatures, signatures, h⟩ := Outcome.bind_eq_ok.mp h
  obtain ⟨fieldRuns, fields, h⟩ := Outcome.bind_eq_ok.mp h
  obtain ⟨methodRuns, methods, h⟩ := Outcome.bind_eq_ok.mp h
  obtain ⟨paramRuns, params, h⟩ := Outcome.bind_eq_ok.mp h
  obtain ⟨types, read, h⟩ := Outcome.bind_eq_ok.mp h
  have paramCount : paramRuns.length = image.methods.length := by
    rw [Run.length_fromRow params, List.length_map]
  rw [← Outcome.pure_eq_ok.mp h]
  have all := (Outcome.mapM_eq_ok.mp read).imp fun item t found =>
    answers_typeDef bounded (m := { name, localSignatures }) signatures paramCount symbols? item.1 item.2.1 item.2.2 t found
  have holds := holdsTypes fields methods params (m := { name, localSignatures, types })
    (all.imp fun item t own => ⟨own.1, own.2.1⟩)
  refine ⟨rfl, rfl, rfl, fun t allowed => ?_, fun t member d listed b shape => ?_⟩
  · have typeCount := all.length_eq
    have assemblyCount := (Outcome.mapM_eq_ok.mp assemblies).length_eq
    have typeRefCount := (Outcome.mapM_eq_ok.mp typeReferences).length_eq
    have memberRefCount := (Outcome.mapM_eq_ok.mp memberReferences).length_eq
    have signatureCount := (Outcome.mapM_eq_ok.mp signatures).length_eq
    rw [List.length_zip] at typeCount
    cases t with
    | module => exact Nat.le_of_ble_eq_true rfl
    | typeRef => exact typeRefCount.symm.le.trans bounded.typeRefs
    | typeDef =>
      have few := bounded.typeDefs
      change types.length ≤ maxRows
      omega
    | field => exact holds.fields.trans bounded.fields
    | methodDef => exact holds.methods.trans bounded.methods
    | param => exact holds.params.trans bounded.params
    | memberRef => exact memberRefCount.symm.le.trans bounded.memberRefs
    | standAloneSig => exact signatureCount.symm.le.trans bounded.signatures
    | assembly =>
      change (if _ then 1 else 0) ≤ maxRows
      split <;> decide
    | assemblyRef => exact assemblyCount.symm.le.trans bounded.assemblyRefs
    | moduleRef => exact absurd allowed (by decide)
    | typeSpec => exact absurd allowed (by decide)
    | document => exact absurd allowed (by decide)
    | methodDebugInformation => exact absurd allowed (by decide)
  · obtain ⟨item, -, -, -, accepted⟩ := forall₂_of_mem all.flip member
    obtain ⟨size, settled, operands, catches, locals⟩ := accepted d listed b shape
    exact ⟨size, settled, operands, catches, locals⟩

end ModuleImage

/-- What a reader has found out about a module that it answers. -/
structure Module.Accepted (m : Module) (maxBodySize : Nat) : Prop where
  runtimeVersion : '\x00' ∉ m.runtimeVersion.toList
  path : ∀ file ∈ m.symbols?, '\x00' ∉ file.path.toList
  rows : ∀ t ∈ Table.ofModule, m.rows t ≤ maxRows
  documents : m.documents.length ≤ maxRows
  bodies : ∀ t ∈ m.types, ∀ method ∈ t.methods, method.AllBodies (MethodBody.Accepted m maxBodySize)

namespace Module

/-- Symbols are read as those of the record in the image. -/
theorem symbolsOf_eq_ok {name : String} {image : ModuleImage} {data : Bytes} {found : SymbolImage × SymbolFile}
    (h : symbolsOf name image data = .ok found) : ∃ record, image.codeView? = some record ∧
      SymbolImage.parse record.id image.methods.length data = .ok found.1 ∧ found.2 = ⟨record.path, record.age⟩ := by
  unfold symbolsOf at h
  cases shape : image.codeView? with
  | none =>
    simp only [shape] at h
    cases h
  | some record =>
    simp only [shape] at h
    obtain ⟨symbols, parsed, last⟩ := Outcome.bind_eq_ok.mp h
    cases Outcome.pure_eq_ok.mp last
    exact ⟨record, rfl, parsed, rfl⟩

theorem answers_ofImages (name : String) (maxBodySize : Nat) (code : Bytes) (symbols? : Option Bytes) :
    Outcome.Answers (ofImages name maxBodySize code symbols?) fun m =>
      m.Accepted maxBodySize ∧ (symbols?.isSome = true → m.symbols?.isSome = true) := by
  unfold ofImages
  refine .bind_of (ModuleImage.bounded_of_parse code) fun image bounded => ?_
  cases symbols? with
  | none =>
    intro m h
    obtain ⟨version, documents, absent, rows, bodies⟩ := ModuleImage.answers_module bounded none m h
    refine ⟨⟨version ▸ bounded.version, ?_, rows, ?_, bodies⟩, fun given => by cases given⟩
    · rw [absent]
      exact fun file member => absurd member (Option.not_mem_none file)
    · rw [documents]
      exact Nat.zero_le _
  | some data =>
    intro m h
    obtain ⟨⟨symbols, file⟩, given, h⟩ := Outcome.bind_eq_ok.mp h
    obtain ⟨m₁, read, h⟩ := Outcome.bind_eq_ok.mp h
    obtain ⟨⟨⟩, -, last⟩ := Outcome.bind_eq_ok.mp h
    obtain ⟨version, -, -, rows, bodies⟩ := ModuleImage.answers_module bounded _ m₁ read
    rw [← Outcome.pure_eq_ok.mp last]
    obtain ⟨record, known, parsed, rfl⟩ := symbolsOf_eq_ok given
    have few := SymbolImage.documents_le_of_read record.id image.methods.length data symbols parsed
    refine ⟨⟨version ▸ bounded.version, ?_, fun t allowed => ?_, few, fun t member d listed b body => ?_⟩, fun _ => rfl⟩
    · intro other member
      cases member
      exact bounded.codeView record known
    · cases t with
      | document => exact absurd allowed (by decide)
      | methodDebugInformation => exact absurd allowed (by decide)
      | _ => exact rows _ allowed
    · obtain ⟨size, settled, operands, catches, locals⟩ := bodies t member d listed b body
      exact ⟨size, settled, operands, catches, locals⟩

/-- What is known about a module that was read. Its references have answers. -/
theorem accepted_of_read {f : Symbol → Result Symbol} {options : ReadOptions} {name : String} {code : Bytes}
    {symbols? : Option Bytes} {m : Module} {s : Unit}
    (h : Module.read (Lookup.ofFunction f) options name code symbols? () = .ok m s) :
    m.Accepted options.maxBodySize ∧ (options.symbolsRequired = true → m.symbols?.isSome = true) ∧
      ∃ types members, m.references = .ok (types, members) ∧ Symbol.Answered f types ∧ Symbol.Answered f members := by
  unfold Module.read at h
  by_cases refused : (symbols?.isNone && options.symbolsRequired) = true
  · simp only [refused, ↓reduceIte] at h
    exact absurd h throw_ne_ok
  · simp only [refused, Bool.false_eq_true, ↓reduceIte] at h
    cases read : (ofImages name options.maxBodySize code symbols?).mapError asMalformed with
    | error e =>
      simp only [read] at h
      exact absurd h throw_ne_ok
    | ok plain =>
      simp only [read] at h
      obtain ⟨accepted, present⟩ := answers_ofImages _ _ _ _ plain (mapError_eq_ok.mp read)
      obtain ⟨types, members, references, answeredTypes, answeredMembers, rfl⟩ := resolve_eq_ok.mp h
      obtain ⟨typeCount, memberCount⟩ := length_of_references references
      have names : (plain.withDefinitions (types.map (Symbol.answer? f)) (members.map (Symbol.answer? f))).SameNames plain :=
        sameNames_withDefinitions (by rw [List.length_map, typeCount]) (by rw [List.length_map, memberCount])
      have typeRefs : (plain.withDefinitions (types.map (Symbol.answer? f)) (members.map (Symbol.answer? f))).typeRefs.length =
          plain.typeRefs.length := by
        simp [withDefinitions, typeCount]
      have memberRefs : (plain.withDefinitions (types.map (Symbol.answer? f))
          (members.map (Symbol.answer? f))).memberRefs.length = plain.memberRefs.length := by
        simp [withDefinitions, memberCount]
      refine ⟨⟨accepted.runtimeVersion, accepted.path, fun t allowed => ?_, accepted.documents,
        fun t member d listed b shape => ?_⟩, fun required => ?_, types, members, names.references ▸ references,
          answeredTypes, answeredMembers⟩
      · cases t with
        | typeRef => exact typeRefs.le.trans (accepted.rows .typeRef allowed)
        | memberRef => exact memberRefs.le.trans (accepted.rows .memberRef allowed)
        | _ => exact accepted.rows _ allowed
      · obtain ⟨size, settled, operands, catches, locals⟩ := accepted.bodies t member d listed b shape
        exact ⟨size, settled, operands, catches, locals⟩
      · apply present
        cases symbols? with
        | none => exact absurd required (by simpa using refused)
        | some data => rfl

end Module

end CilWeaver
