import CilWeaver.Proofs.LoadedImages
import CilWeaver.Proofs.ReadContents
import CilWeaver.Proofs.WritableImages
import CilWeaver.Proofs.WritableSymbols

/-!
Modules that were read can be written back. The branches of their bodies reach their targets, so that no instruction
moves, and their points go back to the offsets that they were read from. A writer asks for three things that a reader
does not look at: that the version fits its field, that the entry point is not row zero of the methods, and that the
blocks of exception regions hold instructions and all clauses of a body go into one section.
-/

namespace CilWeaver

open Code Step
open ModuleDraft (HasReference)

theorem pairwise_of_forall₂ {α β : Type} {R : α → β → Prop} {S : α → α → Prop} {T : β → β → Prop} {as : List α} {bs : List β}
    (all : List.Forall₂ R as bs) (each : ∀ a b a' b', R a b → R a' b' → S a a' → T b b') (pairwise : as.Pairwise S) :
    bs.Pairwise T := by
  induction all with
  | nil => exact .nil
  | cons first others ih =>
    obtain ⟨before, rest⟩ := List.pairwise_cons.mp pairwise
    refine List.pairwise_cons.mpr ⟨fun b' member => ?_, ih rest⟩
    obtain ⟨a', inside, other⟩ := forall₂_of_mem others.flip member
    exact each _ _ _ _ first other (before a' inside)

namespace MethodBody

/-- Points that name instructions and documents, each one behind the last. -/
theorem checkPoints_eq_ok {count documents : Nat} {previous? : Option Nat} {points : List SourcePoint}
    (names : ∀ p ∈ points, Names count documents p) (ascending : points.Pairwise fun p q => p.place < q.place)
    (behind : ∀ last, previous? = some last → ∀ p ∈ points, last < p.place) :
    checkPoints count documents previous? points = .ok () := by
  induction points generalizing previous? with
  | nil => rfl
  | cons p points ih =>
    obtain ⟨own, others⟩ := List.forall_mem_cons.mp names
    obtain ⟨later, rest⟩ := List.pairwise_cons.mp ascending
    have inside : ¬ count ≤ p.place := Nat.not_le.mpr own.place
    have ordered : ¬ previous?.any (p.place ≤ ·) = true := by
      cases previous? with
      | none => exact Bool.false_ne_true
      | some last =>
        have front := behind last rfl p List.mem_cons_self
        rw [Option.any_some, decide_eq_true_eq, Nat.not_le]
        exact front
    have named : ¬ (p.document == 0 || decide (documents < p.document.toNat)) = true := by
      have bounds := own.document
      simp only [Bool.or_eq_true, beq_iff_eq, decide_eq_true_eq, not_or, Nat.not_lt]
      refine ⟨fun zero => ?_, bounds.2⟩
      rw [zero] at bounds
      exact absurd bounds.1 (by decide)
    unfold checkPoints
    rw [if_neg inside, if_neg ordered, if_neg named]
    refine ih others rest fun last same => ?_
    cases same
    exact later

end MethodBody

namespace SymbolImage

variable {symbols : SymbolImage} {decoded : DecodedBody} {points : BodySymbols}

/-- Points that are tied to instructions go back to where they were stored. -/
theorem storedPoints_of_ties {stored : SequencePoints} (signature : points.localSignature = stored.localSignature)
    (tied : List.Forall₂ (symbols.Ties decoded) stored.points points.points) :
    SymbolWriter.storedPoints decoded.offsets points = stored := by
  have each : ∀ p q, symbols.Ties decoded p q →
      id p = q.map fun index => UInt32.ofNat (decoded.offsets.toArray[index]?.getD 0) := by
    rintro p q ⟨index, same, -⟩
    obtain ⟨-, known⟩ := DecodedBody.indexOf?_eq_some index
    generalize q.place = place at same known
    subst same
    cases p
    simp [PointAt.map, known]
  have all := map_eq_map tied each
  rw [List.map_id] at all
  unfold SymbolWriter.storedPoints
  rw [signature]
  exact congrArg (SequencePoints.mk stored.localSignature) all.symm

/-- Points at later offsets are tied to later instructions. -/
theorem place_lt_of_ties (laid : decoded.offsets = offsets decoded.code) {p p' : SequencePoint} {q q' : SourcePoint}
    (ties : symbols.Ties decoded p q) (ties' : symbols.Ties decoded p' q') (before : p.place < p'.place) : q.place < q'.place := by
  obtain ⟨inside, place⟩ := DecodedBody.indexOf?_eq_some ties.index
  obtain ⟨inside', place'⟩ := DecodedBody.indexOf?_eq_some ties'.index
  rw [laid] at place place'
  obtain ⟨bound, same⟩ := List.getElem?_eq_some_iff.mp place
  obtain ⟨bound', same'⟩ := List.getElem?_eq_some_iff.mp place'
  rw [UInt32.lt_iff_toNat_lt, ← same, ← same'] at before
  have ascending := List.pairwise_iff_getElem.mp (pairwise_offsetsFrom 0 decoded.code)
  rcases Nat.lt_trichotomy q.place q'.place with less | equal | greater
  · exact less
  · simp only [equal, Nat.lt_irrefl] at before
  · have less := ascending q'.place q.place bound' bound greater
    change (offsets decoded.code)[q'.place] < (offsets decoded.code)[q.place] at less
    omega

variable (few : symbols.documents.length ≤ maxRows) (laid : decoded.offsets = offsets decoded.code)
  (reads : symbols.ReadsPoints decoded points)

include laid reads

theorem ReadsPoints.checkPoints :
    MethodBody.checkPoints decoded.code.length symbols.documents.length none points.points = .ok () := by
  obtain ⟨blob, document, stored, parsed, -, tied⟩ := reads
  refine MethodBody.checkPoints_eq_ok (fun p member => ?_) ?_ fun last impossible => by cases impossible
  · obtain ⟨q, -, ties⟩ := forall₂_of_mem tied.flip member
    exact ⟨(DecodedBody.indexOf?_eq_some ties.index).1, ties.document⟩
  · exact pairwise_of_forall₂ tied (fun p q p' q' ties ties' => place_lt_of_ties laid ties ties')
      (SequencePoints.valid_of_parse parsed).1

include few

/-- Points that were read are encoded where they were. -/
theorem ReadsPoints.exists_encode (nonempty : points.points ≠ []) : ∃ blob,
    (SymbolWriter.storedPoints (offsets decoded.code) points).encode
      ((SymbolWriter.storedPoints (offsets decoded.code) points).document?.getD 0) = .ok blob := by
  obtain ⟨blob, document, stored, parsed, signature, tied⟩ := reads
  rw [← laid, storedPoints_of_ties signature tied]
  have limit : maxRows < 2 ^ 29 := by decide
  refine SequencePoints.exists_encode parsed (fun p member => ?_) fun empty => ?_
  · obtain ⟨q, -, ties⟩ := forall₂_of_mem tied member
    have same : q.document = p.document := congrArg PointAt.document ties.same
    have bounds := ties.document
    rw [same] at bounds
    refine ⟨fun zero => ?_, by omega⟩
    rw [zero] at bounds
    exact absurd bounds.1 (by decide)
  · have count := tied.length_eq
    rw [empty] at count
    exact nonempty (List.length_eq_zero_iff.mp count.symm)

end SymbolImage

namespace MethodBody

/-- A body that is written as it is: its code, its points, and what the code puts into the heaps. -/
structure Restorable (documents : Nat) (b : MethodBody) : Prop where
  valid : Valid b.code
  settled : promote b.code = b.code
  storable : ∀ item ∈ b.items, item.Storable
  points : ∀ symbols, b.symbols? = some symbols → checkPoints b.code.length documents none symbols.points = .ok ()
  encoded : ∃ blob, b.encodedPoints = .ok blob

end MethodBody

namespace ModuleImage

variable {image : ModuleImage} {points? : Option SymbolImage} {maxBodySize : Nat}

theorem restorable_of_bodyWithSymbols (few : ∀ symbols ∈ points?, symbols.documents.length ≤ maxRows) (position : Nat)
    (method : String) (address : UInt32) :
    Outcome.Answers (image.bodyWithSymbols points? maxBodySize position method address) fun body? =>
      ∀ b, body? = some b → b.Restorable (documentCount points?) := by
  intro body? h b shape
  obtain ⟨decoded, ⟨raw, -, decode, -⟩, code, -, -, points⟩ := readsBody position method address body? h b shape
  have laid := laid_of_decode decode
  have encodable := encodable_of_decode image.storable_of_literal decode
  have settled := (settled_of_decode decode).2
  rw [← code] at encodable settled
  have final := promote_of_promoteOnce settled.promoteOnce_eq
  refine ⟨⟨fun i member => (encodable i member).wellFormed, ?_⟩, final, fun item member => ?_, fun symbols present => ?_, ?_⟩
  · rw [code]
    exact laid.targets
  · obtain ⟨i, inside, own⟩ := List.mem_flatMap.mp member
    exact (encodable i inside).storable item own
  · obtain ⟨stored, rfl, reads⟩ := points symbols present
    rw [code]
    exact reads.checkPoints laid.offsets
  · unfold MethodBody.encodedPoints
    cases present : b.symbols? with
    | none => exact ⟨[], rfl⟩
    | some symbols =>
      obtain ⟨stored, rfl, reads⟩ := points symbols present
      dsimp only
      by_cases empty : symbols.points.isEmpty = true
      · exact ⟨[], by rw [if_pos empty]⟩
      · rw [if_neg empty, final, code]
        exact reads.exists_encode (few stored rfl) laid.offsets fun none => empty (List.isEmpty_iff.mpr none)

end ModuleImage

/-! What the rows of an image put into the heaps -/

namespace ModuleImage

variable {image : ModuleImage} {points? : Option SymbolImage} {maxBodySize : Nat}

theorem storable_of_fieldDef (row : FieldRow) :
    Outcome.Answers (image.fieldDef row) fun f => ∀ item ∈ f.items, item.Storable := by
  unfold fieldDef
  refine .bind_of (image.storable_of_string _) fun name text => .bind_of (image.storable_of_blob _) fun signature blob => .pure ?_
  exact List.forall_mem_cons.mpr ⟨text, List.forall_mem_singleton.mpr blob⟩

theorem storable_of_paramDef (row : ParamRow) :
    Outcome.Answers (image.paramDef row) fun p => ∀ item ∈ p.items, item.Storable := by
  unfold paramDef
  exact .bind_of (image.storable_of_string _) fun name text => .pure (List.forall_mem_singleton.mpr text)

theorem storable_of_typeRef (row : TypeRefRow) :
    Outcome.Answers (image.typeRef row) fun r => ∀ item ∈ r.items, item.Storable := by
  unfold typeRef
  refine .bind_of (image.storable_of_string _) fun namespaceName inside =>
    .bind_of (image.storable_of_string _) fun name text => .pure ?_
  exact List.forall_mem_cons.mpr ⟨text, List.forall_mem_singleton.mpr inside⟩

theorem storable_of_memberRef (row : MemberRefRow) :
    Outcome.Answers (image.memberRef row) fun r => ∀ item ∈ r.items, item.Storable := by
  unfold memberRef
  refine .bind_of (image.storable_of_string _) fun name text => .bind_of (image.storable_of_blob _) fun signature blob => .pure ?_
  exact List.forall_mem_cons.mpr ⟨text, List.forall_mem_singleton.mpr blob⟩

theorem storable_of_assemblyIdentity (row : AssemblyRow) :
    Outcome.Answers (image.assemblyIdentity row) fun a => ∀ item ∈ a.items, item.Storable := by
  unfold assemblyIdentity
  refine .bind_of (image.storable_of_string _) fun name text => .bind_of (image.storable_of_blob _) fun key blob =>
    .bind_of (image.storable_of_string _) fun culture tag => .pure ?_
  exact List.forall_mem_cons.mpr ⟨blob, List.forall_mem_cons.mpr ⟨text, List.forall_mem_singleton.mpr tag⟩⟩

theorem storable_of_assemblyRef (row : AssemblyRefRow) :
    Outcome.Answers (image.assemblyRef row) fun a => ∀ item ∈ a.items, item.Storable := by
  unfold assemblyRef
  refine .bind_of (image.storable_of_string _) fun name text => .bind_of (image.storable_of_blob _) fun key blob =>
    .bind_of (image.storable_of_string _) fun culture tag => .bind_of (image.storable_of_blob _) fun hash digest => .pure ?_
  exact List.forall_mem_cons.mpr ⟨blob, List.forall_mem_cons.mpr ⟨text,
    List.forall_mem_cons.mpr ⟨tag, List.forall_mem_singleton.mpr digest⟩⟩⟩

/-- What was read from rows can be stored if the item of each row can. -/
theorem storable_flatMap {ρ α : Type} {f : ρ → Result α} {items : α → List HeapItem} {rows : List ρ} {found : List α}
    (each : ∀ row, Outcome.Answers (f row) fun a => ∀ item ∈ items a, item.Storable)
    (read : List.Forall₂ (fun row a => f row = .ok a) rows found) : ∀ item ∈ found.flatMap items, item.Storable := by
  intro item member
  obtain ⟨a, inside, own⟩ := List.mem_flatMap.mp member
  obtain ⟨row, -, answer⟩ := forall₂_of_mem read.flip inside
  exact each row a answer item own

variable (few : ∀ symbols ∈ points?, symbols.documents.length ≤ maxRows)

include few

theorem ReadsMethod.storable {position : Nat} {row : MethodDefRow} {params : Run} {d : MethodDef}
    (reads : image.ReadsMethod points? maxBodySize position row params d) : ∀ item ∈ d.items, item.Storable := by
  have name := image.storable_of_string _ _ reads.name
  have signature := image.storable_of_blob _ _ reads.signature
  have params := storable_flatMap storable_of_paramDef reads.params
  obtain ⟨text, read⟩ := reads.body
  have body : ∀ item ∈ d.body?.elim [] MethodBody.items, item.Storable := by
    cases shape : d.body? with
    | none => exact fun item impossible => absurd impossible List.not_mem_nil
    | some b => exact (restorable_of_bodyWithSymbols few _ _ _ _ read b shape).storable
  refine List.forall_mem_append.mpr ⟨List.forall_mem_append.mpr ⟨body, ?_⟩, params⟩
  exact List.forall_mem_cons.mpr ⟨name, List.forall_mem_singleton.mpr signature⟩

theorem ReadsType.storable {paramRuns : List Run} {row : TypeDefRow} {fields methods : Run} {t : TypeDef}
    (reads : image.ReadsType points? maxBodySize paramRuns row fields methods t) : ∀ item ∈ t.items, item.Storable := by
  have name := image.storable_of_string _ _ reads.name
  have namespaceName := image.storable_of_string _ _ reads.namespaceName
  have methods : ∀ item ∈ t.methods.flatMap MethodDef.items, item.Storable := by
    intro item member
    obtain ⟨d, inside, own⟩ := List.mem_flatMap.mp member
    obtain ⟨listed, -, method⟩ := forall₂_of_mem reads.methods.flip inside
    exact method.storable few item own
  refine List.forall_mem_append.mpr ⟨List.forall_mem_append.mpr ⟨?_, storable_flatMap storable_of_fieldDef reads.fields⟩, methods⟩
  exact List.forall_mem_cons.mpr ⟨name, List.forall_mem_singleton.mpr namespaceName⟩

theorem ReadsModule.storable {runs : MemberRuns} {m : Module} (reads : image.ReadsModule points? maxBodySize runs m) :
    ∀ item ∈ m.items, item.Storable := by
  have own : ∀ item ∈ [HeapItem.text m.name, .guid m.mvid], item.Storable :=
    List.forall_mem_cons.mpr ⟨image.storable_of_string _ _ reads.name, List.forall_mem_singleton.mpr trivial⟩
  have types : ∀ item ∈ m.types.flatMap TypeDef.items, item.Storable := by
    intro item member
    obtain ⟨t, inside, own⟩ := List.mem_flatMap.mp member
    obtain ⟨listed, -, type⟩ := forall₂_of_mem reads.types.flip inside
    exact type.storable few item own
  have signatures : ∀ item ∈ m.localSignatures.map HeapItem.blob, item.Storable := by
    intro item member
    obtain ⟨blob, inside, rfl⟩ := List.mem_map.mp member
    obtain ⟨row, -, answer⟩ := forall₂_of_mem reads.signatures.flip inside
    exact image.storable_of_blob _ _ answer
  have assembly : ∀ item ∈ m.assembly?.toList.flatMap AssemblyIdentity.items, item.Storable := by
    intro item member
    obtain ⟨a, inside, own⟩ := List.mem_flatMap.mp member
    have answered := Outcome.Answers.option_mapM storable_of_assemblyIdentity image.assembly? _ reads.assembly
    exact answered a (Option.mem_toList.mp inside) item own
  unfold Module.items
  simp only [List.forall_mem_append]
  exact ⟨⟨⟨⟨⟨⟨own, storable_flatMap storable_of_typeRef reads.typeRefs⟩, types⟩,
    storable_flatMap storable_of_memberRef reads.memberRefs⟩, signatures⟩, assembly⟩,
    storable_flatMap storable_of_assemblyRef reads.assemblyRefs⟩

end ModuleImage

namespace Module

variable {m : Module}

/-- A token that was read from a column for rows of several tables can be put into such a column again. -/
theorem exists_reference {l : Layout} {kind : CodedKind} {token : Token} {index : CodedIndex} (contained : m.contains token = true)
    (same : token = index.token) (written : ∃ bytes, l.writeColumn (.coded kind) index = .ok bytes) :
    ∃ found, HasReference m kind token found := by
  obtain ⟨bytes, written⟩ := written
  obtain ⟨k, encoded, -⟩ := Outcome.bind_eq_ok.mp written
  obtain ⟨found, coded⟩ := CodedIndex.ofToken_token (CodedIndex.mem_tables_of_encode encoded)
  exact ⟨found, contained, same ▸ coded⟩

theorem items_withDefinitions {types members : List (Option Symbol)} (typeCount : types.length = m.typeRefs.length)
    (memberCount : members.length = m.memberRefs.length) : (m.withDefinitions types members).items = m.items := by
  have typeRefs : (m.withDefinitions types members).typeRefs.map TypeRef.items = m.typeRefs.map TypeRef.items := by
    apply map_zipWith_left _ typeCount
    exact fun r definition? => rfl
  have memberRefs : (m.withDefinitions types members).memberRefs.map MemberRef.items = m.memberRefs.map MemberRef.items := by
    apply map_zipWith_left _ memberCount
    exact fun r definition? => rfl
  unfold items
  rw [List.flatMap_def (f := TypeRef.items), typeRefs, ← List.flatMap_def, List.flatMap_def (f := MemberRef.items), memberRefs,
    ← List.flatMap_def]
  rfl

namespace ReadFrom

variable {name : String} {maxBodySize : Nat} {code : Bytes} {symbols? : Option Bytes} {image : ModuleImage}
  {given? : Option (SymbolImage × SymbolFile)} {plain : Module}
  (parts : ReadFrom name maxBodySize code symbols? image given? plain m)

include parts

theorem items_eq : m.items = plain.items := by
  obtain ⟨types, members, typeCount, memberCount, rfl⟩ := parts.whole
  obtain ⟨typeRefs, memberRefs⟩ := plain.typeRefs_withSymbols given?
  rw [items_withDefinitions (typeCount.trans (congrArg _ typeRefs.symm)) (memberCount.trans (congrArg _ memberRefs.symm))]
  cases given? <;> rfl

theorem few_documents : ∀ symbols ∈ given?.map (·.1), symbols.documents.length ≤ maxRows := by
  intro symbols member
  obtain ⟨found, given, rfl⟩ := Option.map_eq_some_iff.mp member
  cases symbols? with
  | none =>
    cases parts.symbols
    cases given
  | some data =>
    obtain ⟨own, read, same⟩ := Outcome.bind_eq_ok.mp parts.symbols
    cases Outcome.pure_eq_ok.mp same
    cases given
    obtain ⟨record, -, parsed, -⟩ := symbolsOf_eq_ok read
    exact SymbolImage.documents_le_of_read _ _ _ _ parsed

theorem storable : ∀ item ∈ m.items, item.Storable := by
  obtain ⟨runs, reads⟩ := ModuleImage.readsModule parts.module
  rw [parts.items_eq]
  exact reads.storable parts.few_documents

theorem restorable : ∀ t ∈ m.types, ∀ d ∈ t.methods, d.AllBodies (MethodBody.Restorable m.documents.length) := by
  obtain ⟨runs, reads⟩ := ModuleImage.readsModule parts.module
  rw [parts.types_eq, parts.documents_eq]
  exact reads.bodies fun position text address =>
    ModuleImage.restorable_of_bodyWithSymbols parts.few_documents position text address

section

variable (closed : m.Closed)

include closed

theorem scopes_coded : ∀ r ∈ m.typeRefs, ∃ index, HasReference m .resolutionScope r.scope index := by
  intro r member
  obtain ⟨row, inImage, same⟩ := parts.scope_of r member
  obtain ⟨written, -⟩ := (ModuleImage.stored_of_parse code image parts.parsed).typeRefs row inImage
  exact exists_reference (closed.scopes r member) same written

theorem parents_coded : ∀ r ∈ m.memberRefs, ∃ index, HasReference m .memberRefParent r.parent index := by
  intro r member
  obtain ⟨row, inImage, same⟩ := parts.parent_of r member
  obtain ⟨written, -⟩ := (ModuleImage.stored_of_parse code image parts.parsed).memberRefs row inImage
  exact exists_reference (closed.parents r member) same written

theorem baseTypes_coded : ∀ t ∈ m.types, ¬ t.baseType.isNull → ∃ index, HasReference m .typeDefOrRef t.baseType index := by
  intro t member stored
  obtain ⟨row, inImage, -, same⟩ := (parts.baseType_of t member).resolve_left stored
  obtain ⟨-, -, -, written, -⟩ := (ModuleImage.stored_of_parse code image parts.parsed).typeDefs row inImage
  exact exists_reference ((closed.baseTypes t member).resolve_left stored) same written

end

end ReadFrom

end Module

/-! What a writer asks for and a reader does not -/

/-- The blocks of an exception region hold instructions. -/
structure Region.Filled (r : Region) : Prop where
  tried : r.tryStart < r.tryEnd
  handled : r.handlerStart < r.handlerEnd

theorem Region.Bounded.inside_iff {count : Nat} {r : Region} (bounded : r.Bounded count) : r.Inside count ↔ r.Filled := by
  constructor
  · rintro ⟨tried, handled, -⟩
    exact ⟨tried.1, handled.1⟩
  · rintro ⟨tried, handled⟩
    exact ⟨⟨tried, bounded.tried.2.2⟩, ⟨handled, bounded.handled.2.2⟩, bounded.filter⟩

/-- No block of a body is empty, and one section holds all its clauses. -/
structure MethodBody.Sectioned (b : MethodBody) : Prop where
  regions : ∀ r ∈ b.regions, r.Filled
  clauses : 4 + 24 * b.regions.length ≤ 0x00FFFFFF

namespace Module

variable {m : Module}

/-- The images of a module are below the reach of offsets, and so are its heaps below the reach of what refers to
    them: literals have three bytes in a token, and parts of document names have a length for an index. -/
structure Fits (m : Module) : Prop where
  image : m.imageSpace < 2 ^ 32
  literals : HeapItem.literalSpace m.items ≤ 2 ^ 24
  symbols : m.symbols?.isSome = true → m.symbolSpace < 2 ^ 32
  documents : m.symbols?.isSome = true → m.documentSpace ≤ 2 ^ 29
  points : ∀ t ∈ m.types, ∀ d ∈ t.methods, d.AllBodies fun b => ∀ blob, b.encodedPoints = .ok blob → blob.length < 2 ^ 29

theorem Fits.items (fits : m.Fits) (storable : ∀ item ∈ m.items, item.Storable) : HeapItem.Fit m.items := by
  have space := fits.image
  unfold imageSpace at space
  exact ⟨storable, by omega, fits.literals, by omega, by omega⟩

/-- What a writer asks for, of all that a reader lets pass. -/
structure Presentable (m : Module) : Prop where
  version : Root.versionFieldSize m.runtimeVersion ≤ Root.maxVersionSize
  entryPoint : m.entryPoint.isNull = true ∨ m.entryPoint.row ≠ 0
  bodies : ∀ t ∈ m.types, ∀ d ∈ t.methods, d.AllBodies MethodBody.Sectioned

namespace ReadFrom

variable {name : String} {maxBodySize : Nat} {code : Bytes} {symbols? : Option Bytes} {image : ModuleImage}
  {given? : Option (SymbolImage × SymbolFile)} {plain : Module}
  (parts : ReadFrom name maxBodySize code symbols? image given? plain m)

include parts

theorem rows_of_owned (owned : image.Owned) : ∀ t ∈ Table.ofModule, m.rows t = image.layout.rows t := by
  obtain ⟨runs, reads⟩ := ModuleImage.readsModule parts.module
  exact fun t member => (parts.rows_eq member).trans ((reads.numbered parts.parsed owned).rows t member)

theorem entryPointCheck_ok (rows : ∀ t ∈ Table.ofModule, m.rows t = image.layout.rows t)
    (entry : m.entryPoint.isNull = true ∨ m.entryPoint.row ≠ 0) : ModuleWriter.entryPointCheck m = .ok () := by
  unfold ModuleWriter.entryPointCheck
  rcases parts.entryPoint_of with null | ⟨table, within⟩
  · rw [null]
    rfl
  · rcases entry with null | nonzero
    · rw [null]
      rfl
    · have count : m.rows .methodDef = image.methods.length :=
        (rows .methodDef (by decide)).trans (ModuleImage.counted_of_parse parts.parsed .methodDef)
      have contained : m.contains m.entryPoint = true := by
        unfold contains
        rw [Token.table?_of_isIn table]
        simp only [count, Bool.and_eq_true, decide_eq_true_eq]
        exact ⟨Nat.one_le_iff_ne_zero.mpr nonzero, within⟩
      rw [table, contained]
      simp

theorem placed (presentable : m.Presentable) :
    ∀ t ∈ m.types, ∀ d ∈ t.methods, d.AllBodies (MethodBody.Placed m.documents.length) := by
  intro t member d listed b body
  have sectioned := presentable.bodies t member d listed b body
  have bounded := (parts.bodies t member d listed b body).2
  exact ⟨fun r inside => (bounded.regions r inside).inside_iff.mpr (sectioned.regions r inside),
    (parts.restorable t member d listed b body).points⟩

/-- The rows of a module that was read can be written. -/
theorem writable (owned : image.Owned) (fits : m.Fits) (presentable : m.Presentable) : m.Writable := by
  have rows := parts.rows_of_owned owned
  have closed := parts.closed rows
  obtain ⟨runs, reads⟩ := ModuleImage.readsModule parts.module
  obtain ⟨fields, methods, params⟩ := reads.startsFit parts.parsed owned
  rw [← parts.types_eq] at fields methods params
  have space := fits.image
  unfold imageSpace at space
  refine ⟨parts.entryPointCheck_ok rows presentable.entryPoint, parts.scopes_coded closed, parts.parents_coded closed,
    parts.baseTypes_coded closed, fun t member d listed b body => ⟨⟨?_, ?_, ?_⟩, ?_⟩, fields, methods, params,
    fits.items parts.storable, by omega⟩
  · exact (parts.restorable t member d listed b body).valid
  · exact parts.placed presentable t member d listed b body
  · exact closed.bodies t member d listed b body
  · exact (presentable.bodies t member d listed b body).clauses

theorem writableSymbols (fits : m.Fits) (presentable : m.Presentable) (present : m.symbols?.isSome = true) :
    m.WritableSymbols := by
  have space := fits.symbols present
  unfold symbolSpace at space
  refine ⟨fun method member b body => ?_, fits.documents present, by omega, by omega⟩
  obtain ⟨t, type, inside⟩ := List.mem_flatMap.mp member
  obtain ⟨d, listed, rfl⟩ := List.mem_map.mp inside
  obtain ⟨blob, encoded⟩ := (parts.restorable t type d listed b body).encoded
  exact ⟨parts.placed presentable t type d listed b body, blob, encoded, fits.points t type d listed b body blob encoded⟩

theorem emittable (owned : image.Owned) (fits : m.Fits) (presentable : m.Presentable) : m.Emittable :=
  ⟨parts.writable owned fits presentable, presentable.version, fits.image,
    fun present => ⟨parts.writableSymbols fits presentable present, fits.symbols present⟩⟩

end ReadFrom

/-- What was written has passed the checks of the writer. -/
theorem presentable_of_emit {digest : Bytes → ImageId} {e : EmittedModule} (emitted : m.emit digest = .ok e) :
    m.Presentable := by
  obtain ⟨rows, d, b, record?, written⟩ := emittedAs_of_emit emitted
  refine ⟨(Root.build_eq written.code).1, ?_, fun t type method member body shape => ?_⟩
  · have entry := written.written.described.entryPoint
    unfold ModuleWriter.entryPointCheck at entry
    by_cases accepted : (m.entryPoint.isNull || (m.entryPoint.isIn .methodDef && m.contains m.entryPoint)) = true
    · rcases Bool.or_eq_true_iff.mp accepted with null | method
      · exact .inl null
      · obtain ⟨table, contained⟩ := Bool.and_eq_true_iff.mp method
        unfold contains at contained
        rw [Token.table?_of_isIn table] at contained
        simp only [Bool.and_eq_true, decide_eq_true_eq] at contained
        exact .inr (Nat.one_le_iff_ne_zero.mp contained.1)
    · rw [if_neg accepted] at entry
      cases entry
  · obtain ⟨⟨-, placed, -⟩, address, code, bytes, -, encoded, -⟩ :=
      stored_of_written written.written t type method member body shape
    refine ⟨fun r inside => ?_, ?_⟩
    · exact ⟨(placed.regions r inside).tried.1, (placed.regions r inside).handled.1⟩
    · have few := RawBody.few_of_encode encoded
      rwa [MethodBody.raw, List.length_map] at few

/-- A module that was read without losing a row, and for which there is space, can be written iff its version fits,
    its entry point is not row zero, and its exception regions are neither empty nor too many for a section. -/
theorem emits_read_iff {name : String} {code : Bytes} {symbols? : Option Bytes} {maxBodySize : Nat}
    (read : ReadAs name code symbols? maxBodySize m)
    (owned : ∀ image, ModuleImage.parse code = .ok image → image.Owned) (fits : m.Fits) (digest : Bytes → ImageId) :
    (∃ e, m.emit digest = .ok e) ↔ m.Presentable := by
  obtain ⟨image, given?, plain, parts⟩ := read.parts
  constructor
  · rintro ⟨e, emitted⟩
    exact presentable_of_emit emitted
  · exact fun presentable => exists_emit (parts.emittable (owned image parts.parsed) fits presentable) digest

end Module

namespace Sample

/-- The image of a method that catches its own type. -/
def catchingImage : Bytes := ((catching (.ofRow .typeDef 1)).emit fun _ => .zero).toOption.elim [] (·.code)

/-- The same, but the block that is tried has no instruction. -/
def emptyBlockImage : Bytes := catchingImage.set 236 0

theorem fits_catching : (catching (.ofRow .typeDef 1)).Fits := by
  refine ⟨by decide +kernel, by decide +kernel, nofun, nofun, allBodies_catching fun blob encoded => ?_⟩
  cases encoded
  decide

theorem presentable_catching : (catching (.ofRow .typeDef 1)).Presentable := by
  refine ⟨by decide +kernel, .inl rfl, allBodies_catching ⟨fun r member => ?_, by decide⟩⟩
  cases List.mem_singleton.mp member
  exact ⟨by decide, by decide⟩

end Sample

theorem Module.emits_read_iff_sample : ∃ m e, Module.read (Lookup.ofFunction .ok) { symbolsRequired := false } "a"
    Sample.catchingImage none () = .ok m () ∧ m.emit (fun _ => .zero) = .ok e := by
  have answers : ((answer? (Module.read (Lookup.ofFunction .ok) { symbolsRequired := false } "a" Sample.catchingImage
      none ())).any fun m => decide (m = Sample.catching (.ofRow .typeDef 1))) = true := by
    decide +kernel
  obtain ⟨m, read, same⟩ := exists_of_any answers
  obtain rfl := of_decide_eq_true same
  have owned : ((ModuleImage.parse Sample.catchingImage).toOption.any fun image => decide image.Owned) = true := by
    decide +kernel
  obtain ⟨found, parsed, owned⟩ := Outcome.exists_of_any owned
  have written : (∃ e, (Sample.catching (.ofRow .typeDef 1)).emit (fun _ => .zero) = .ok e) ↔ _ :=
    emits_read_iff (.resolved read) (fun image answered => by
      cases answered.symm.trans parsed
      exact of_decide_eq_true owned) Sample.fits_catching _
  obtain ⟨e, emitted⟩ := written.mpr Sample.presentable_catching
  exact ⟨_, e, read, emitted⟩

/-- The reader accepts a block without instructions, and the writer refuses it. -/
theorem Module.read_not_emitted : ∃ m, Module.read (Lookup.ofFunction .ok) { symbolsRequired := false } "a"
    Sample.emptyBlockImage none () = .ok m () ∧ ∀ digest e, m.emit digest ≠ .ok e := by
  have answers : ((answer? (Module.read (Lookup.ofFunction .ok) { symbolsRequired := false } "a" Sample.emptyBlockImage
      none ())).any fun m => m.types.any fun t => t.methods.any fun d => d.body?.any fun b =>
        b.regions.any fun r => decide (r.tryEnd ≤ r.tryStart)) = true := by
    decide +kernel
  obtain ⟨m, read, types⟩ := exists_of_any answers
  simp only [List.any_eq_true, Option.any_eq_true, decide_eq_true_eq] at types
  obtain ⟨t, type, d, method, b, body, r, region, empty⟩ := types
  refine ⟨m, read, fun digest e emitted => ?_⟩
  have filled := ((presentable_of_emit emitted).bodies t type d method b body).regions r region
  exact absurd filled.tried (Nat.not_lt.mpr empty)

end CilWeaver
