import CilWeaver.Proofs.DecodedRegions
import CilWeaver.Proofs.OwnedRows

/-!
What the parts of a module that was read refer to: tokens name rows of the image, and positions in a body are
positions of it.
-/

namespace CilWeaver

open Code Step

/-- The positions in a body are positions of it, and its points are in one of so many documents. -/
structure MethodBody.Bounded (documents : Nat) (b : MethodBody) : Prop where
  targets : ∀ i ∈ b.code, ∀ t ∈ i.targets, t < b.code.length
  regions : ∀ r ∈ b.regions, Region.Bounded b.code.length r
  points : ∀ symbols, b.symbols? = some symbols → ∀ p ∈ symbols.points,
    p.place < b.code.length ∧ 1 ≤ p.document.toNat ∧ p.document.toNat ≤ documents

namespace ModuleImage

variable {image : ModuleImage} {points? : Option SymbolImage} {maxBodySize : Nat}

/-- The tokens in a body name rows of the image. -/
structure Names (image : ModuleImage) (b : MethodBody) : Prop where
  operands : ∀ i ∈ b.code, ∀ token, i.operand.token? = some token → image.contains token = true
  catches : ∀ r ∈ b.regions, Region.Catchable image.contains r
  signature : b.localSignature.isNull = true ∨
    (b.localSignature.isIn .standAloneSig = true ∧ image.contains b.localSignature = true)

theorem row_le_of_rowOf? {α : Type} {items : List α} {row : Nat} {a : α} (h : Module.rowOf? items row = some a) :
    1 ≤ row ∧ row ≤ items.length := by
  cases row with
  | zero => cases h
  | succ row =>
    obtain ⟨bound, -⟩ := List.getElem?_eq_some_iff.mp h
    omega

theorem signature_of_locals (counted : image.layout.rows .standAloneSig = image.signatures.length) {method : String}
    {token : Token} {types : List TypeSig} (h : image.locals method token = .ok types) :
    token.isNull = true ∨ (token.isIn .standAloneSig = true ∧ image.contains token = true) := by
  unfold ModuleImage.locals at h
  by_cases null : token.isNull = true
  · exact .inl null
  · rw [if_neg null] at h
    by_cases table : token.isIn .standAloneSig = true
    · rw [if_pos table] at h
      cases named : Module.rowOf? image.signatures token.row with
      | none =>
        simp only [named] at h
        cases h
      | some row =>
        have bounds := row_le_of_rowOf? named
        refine .inr ⟨table, ?_⟩
        unfold contains
        rw [Token.table?_of_isIn table]
        simp [counted, bounds]
    · rw [if_neg table] at h
      cases h

/-- The documents that symbols have, if there are any. -/
def documentCount (points? : Option SymbolImage) : Nat := (points?.elim [] (·.documents)).length

theorem names_of_bodyWithSymbols (counted : image.layout.rows .standAloneSig = image.signatures.length) (position : Nat)
    (method : String) (address : UInt32) :
    Outcome.Answers (image.bodyWithSymbols points? maxBodySize position method address) fun body? =>
      ∀ b, body? = some b → image.Names b ∧ b.Bounded (documentCount points?) := by
  intro body? h b shape
  obtain ⟨decoded, ⟨raw, -, decode, clauses⟩, code, operands, locals, points⟩ := readsBody position method address body? h b shape
  have laid := laid_of_decode decode
  have each := Outcome.Answers.mapM (Region.bounded_of_ofClause laid.offsets image.contains) raw.clauses _ clauses
  have named := (checkOperands_eq_ok (length_offsets_of_decode decode)).mp operands
  have targets := laid.targets
  rw [← code] at each named targets
  refine ⟨⟨named, fun r member => (each r member).2, signature_of_locals counted locals⟩,
    targets, fun r member => (each r member).1, fun symbols present p member => ?_⟩
  obtain ⟨stored, rfl, blob, document, parsed, -, -, tied⟩ := points symbols present
  obtain ⟨q, -, ties⟩ := forall₂_of_mem tied.flip member
  rw [code]
  exact ⟨(DecodedBody.indexOf?_eq_some ties.index).1, ties.document⟩

/-- The references in the rows of an image name its rows. -/
structure Referring (image : ModuleImage) : Prop where
  scopes : ∀ r ∈ image.typeRefs, image.contains r.scope.token = true
  baseTypes : ∀ r ∈ image.typeDefs, r.baseType.isNull = true ∨ image.contains r.baseType.token = true
  parents : ∀ r ∈ image.memberRefs, image.contains r.parent.token = true

theorem contained_of_check {nullable : Bool} {column : ReferenceColumn} {index : CodedIndex}
    (h : image.checkReference nullable column index = .ok ()) :
    (nullable = true ∧ index.isNull = true) ∨ image.contains index.token = true := by
  unfold checkReference at h
  by_cases null : index.isNull = true
  · rw [if_pos null] at h
    cases nullable with
    | true => exact .inl ⟨rfl, null⟩
    | false => cases h
  · rw [if_neg null] at h
    by_cases contained : image.contains index.token = true
    · exact .inr contained
    · rw [if_neg contained] at h
      cases h

theorem referring_of_parse {data : Bytes} (h : parse data = .ok image) : image.Referring := by
  unfold parse at h
  obtain ⟨parts, -, h⟩ := Outcome.bind_eq_ok.mp h
  obtain ⟨⟨⟩, checked, last⟩ := Outcome.bind_eq_ok.mp h
  cases Outcome.pure_eq_ok.mp last
  unfold checkIndices at checked
  obtain ⟨⟨⟩, scopes, checked⟩ := Outcome.bind_eq_ok.mp checked
  obtain ⟨⟨⟩, baseTypes, checked⟩ := Outcome.bind_eq_ok.mp checked
  obtain ⟨⟨⟩, parents, -⟩ := Outcome.bind_eq_ok.mp checked
  have listed : ∀ {α : Type} {rows : List α} {r : α}, r ∈ rows → ∃ index, (r, index) ∈ rows.zipIdx := by
    intro α rows r member
    obtain ⟨index, bound, same⟩ := List.getElem_of_mem member
    exact ⟨index, List.mem_zipIdx_iff_getElem?.mpr (List.getElem?_eq_some_iff.mpr ⟨bound, same⟩)⟩
  refine ⟨fun r member => ?_, fun r member => ?_, fun r member => ?_⟩
  · obtain ⟨index, place⟩ := listed member
    rcases contained_of_check (Outcome.forM_eq_ok.mp scopes _ place) with impossible | contained
    · cases impossible.1
    · exact contained
  · obtain ⟨index, place⟩ := listed member
    rcases contained_of_check (Outcome.forM_eq_ok.mp baseTypes _ place) with null | contained
    · exact .inl null.2
    · exact .inr contained
  · obtain ⟨index, place⟩ := listed member
    rcases contained_of_check (Outcome.forM_eq_ok.mp parents _ place) with impossible | contained
    · cases impossible.1
    · exact contained

end ModuleImage

namespace Module

/-- Nothing in the module refers to a row that it does not have. -/
structure Closed (m : Module) : Prop where
  scopes : ∀ r ∈ m.typeRefs, m.contains r.scope = true
  parents : ∀ r ∈ m.memberRefs, m.contains r.parent = true
  baseTypes : ∀ t ∈ m.types, t.baseType.isNull = true ∨ m.contains t.baseType = true
  bodies : ∀ t ∈ m.types, ∀ d ∈ t.methods, d.AllBodies (MethodBody.Named m)

variable {name : String} {code : Bytes} {symbols? : Option Bytes} {maxBodySize : Nat} {m : Module}

theorem contains_of_image {image : ModuleImage} (bounded : image.Bounded)
    (rows : ∀ t ∈ Table.ofModule, m.rows t = image.layout.rows t) {token : Token} (contained : image.contains token = true) :
    m.contains token = true := by
  unfold ModuleImage.contains at contained
  unfold contains
  cases shape : token.table? with
  | none =>
    rw [shape] at contained
    cases contained
  | some t =>
    simp only [shape, Bool.and_eq_true, decide_eq_true_eq] at contained
    have member := bounded.tables t (contained.1.trans contained.2)
    simp [rows t member, contained]

namespace ReadFrom

variable {image : ModuleImage} {given? : Option (SymbolImage × SymbolFile)} {plain : Module}
  (parts : ReadFrom name maxBodySize code symbols? image given? plain m)

include parts

theorem documents_eq : m.documents.length = ModuleImage.documentCount (given?.map (·.1)) := by
  obtain ⟨runs, reads⟩ := ModuleImage.readsModule parts.module
  obtain ⟨types, members, -, -, rfl⟩ := parts.whole
  cases given? with
  | none => exact congrArg List.length reads.documents
  | some given => rfl

/-- The reader lets row zero of the methods pass. -/
theorem entryPoint_of : m.entryPoint.isNull = true ∨
    (m.entryPoint.isIn .methodDef = true ∧ m.entryPoint.row ≤ image.methods.length) := by
  obtain ⟨runs, reads⟩ := ModuleImage.readsModule parts.module
  obtain ⟨types, members, -, -, rfl⟩ := parts.whole
  cases given? with
  | none =>
    change plain.entryPoint.isNull = true ∨ _
    rw [reads.entryPoint]
    exact .inl rfl
  | some given =>
    have checked := parts.entryPoint given rfl
    unfold ModuleImage.checkEntryPoint at checked
    by_cases accepted : (given.1.entryPoint.isNull ||
        (given.1.entryPoint.isIn .methodDef && decide (given.1.entryPoint.row ≤ image.methods.length))) = true
    · change given.1.entryPoint.isNull = true ∨ (given.1.entryPoint.isIn .methodDef = true ∧ given.1.entryPoint.row ≤ _)
      simpa using accepted
    · rw [if_neg accepted] at checked
      cases checked

theorem bodies : ∀ t ∈ m.types, ∀ d ∈ t.methods,
    d.AllBodies fun b => image.Names b ∧ b.Bounded m.documents.length := by
  obtain ⟨runs, reads⟩ := ModuleImage.readsModule parts.module
  have counted := ModuleImage.counted_of_parse parts.parsed .standAloneSig
  rw [parts.types_eq, parts.documents_eq]
  exact reads.bodies fun position text address => ModuleImage.names_of_bodyWithSymbols counted position text address

/-! The rows that references come from -/

theorem scope_of : ∀ r ∈ m.typeRefs, ∃ row ∈ image.typeRefs, r.scope = row.scope.token := by
  intro r member
  obtain ⟨runs, reads⟩ := ModuleImage.readsModule parts.module
  have scope : r.scope ∈ plain.typeRefs.map (·.scope) := parts.scopes_eq ▸ List.mem_map_of_mem member
  obtain ⟨own, among, same⟩ := List.mem_map.mp scope
  obtain ⟨row, inImage, found⟩ := forall₂_of_mem reads.typeRefs.flip among
  unfold ModuleImage.typeRef at found
  obtain ⟨namespaceName, -, found⟩ := Outcome.bind_eq_ok.mp found
  obtain ⟨text, -, last⟩ := Outcome.bind_eq_ok.mp found
  cases Outcome.pure_eq_ok.mp last
  exact ⟨row, inImage, same.symm⟩

theorem parent_of : ∀ r ∈ m.memberRefs, ∃ row ∈ image.memberRefs, r.parent = row.parent.token := by
  intro r member
  obtain ⟨runs, reads⟩ := ModuleImage.readsModule parts.module
  have parent : r.parent ∈ plain.memberRefs.map (·.parent) := parts.parents_eq ▸ List.mem_map_of_mem member
  obtain ⟨own, among, same⟩ := List.mem_map.mp parent
  obtain ⟨row, inImage, found⟩ := forall₂_of_mem reads.memberRefs.flip among
  unfold ModuleImage.memberRef at found
  obtain ⟨text, -, found⟩ := Outcome.bind_eq_ok.mp found
  obtain ⟨signature, -, last⟩ := Outcome.bind_eq_ok.mp found
  cases Outcome.pure_eq_ok.mp last
  exact ⟨row, inImage, same.symm⟩

theorem baseType_of : ∀ t ∈ m.types, t.baseType.isNull = true ∨
    ∃ row ∈ image.typeDefs, row.baseType.isNull = false ∧ t.baseType = row.baseType.token := by
  intro t member
  obtain ⟨runs, reads⟩ := ModuleImage.readsModule parts.module
  rw [parts.types_eq] at member
  obtain ⟨item, inImage, type⟩ := forall₂_of_mem reads.types.flip member
  have row : item.1 ∈ image.typeDefs := (List.of_mem_zip inImage).1
  have shape := type.baseType
  cases null : item.1.baseType.isNull with
  | true =>
    rw [if_pos null] at shape
    rw [shape]
    exact .inl rfl
  | false =>
    rw [null] at shape
    exact .inr ⟨item.1, row, null, shape⟩

theorem closed (rows : ∀ t ∈ Table.ofModule, m.rows t = image.layout.rows t) : m.Closed := by
  have bounded := ModuleImage.bounded_of_parse code image parts.parsed
  have referring := ModuleImage.referring_of_parse parts.parsed
  have contained := fun token => @contains_of_image m image bounded rows token
  refine ⟨fun r member => ?_, fun r member => ?_, fun t member => ?_, fun t member d listed b body => ?_⟩
  · obtain ⟨row, inImage, same⟩ := parts.scope_of r member
    exact same ▸ contained _ (referring.scopes row inImage)
  · obtain ⟨row, inImage, same⟩ := parts.parent_of r member
    exact same ▸ contained _ (referring.parents row inImage)
  · rcases parts.baseType_of t member with null | ⟨row, inImage, stored, same⟩
    · exact .inl null
    · have named := (referring.baseTypes row inImage).resolve_left (by rw [stored]; decide)
      exact .inr (same ▸ contained _ named)
  · obtain ⟨operands, catches, signature⟩ := (parts.bodies t member d listed b body).1
    refine ⟨fun i mem token named => contained _ (operands i mem token named), fun r mem type kind => ?_, ?_⟩
    · exact contained _ (Bool.and_eq_true_iff.mp (catches r mem type kind)).2
    · exact signature.imp_right fun own => ⟨own.1, contained _ own.2⟩

end ReadFrom

/-- Positions in a module that was read are positions of its bodies. When no row of the image is lost, its tokens
    name rows of it, and its entry point is a method unless it is row zero. -/
theorem read_closed (read : ReadAs name code symbols? maxBodySize m) :
    (∀ t ∈ m.types, ∀ d ∈ t.methods, d.AllBodies (MethodBody.Bounded m.documents.length)) ∧
      ∃ image, ModuleImage.parse code = .ok image ∧ (image.Owned → m.Closed ∧
        (m.entryPoint.isNull = true ∨ m.entryPoint.row = 0 ∨ (m.method? m.entryPoint).isSome = true)) := by
  obtain ⟨image, given?, plain, parts⟩ := read.parts
  obtain ⟨runs, reads⟩ := ModuleImage.readsModule parts.module
  refine ⟨fun t member d listed b body => (parts.bodies t member d listed b body).2, image, parts.parsed, fun owned => ?_⟩
  have numbered := (reads.numbered parts.parsed owned).of_types parts.types_eq fun t member => parts.rows_eq member
  refine ⟨parts.closed numbered.rows, ?_⟩
  rcases parts.entryPoint_of with null | ⟨table, within⟩
  · exact .inl null
  · by_cases zero : m.entryPoint.row = 0
    · exact .inr (.inl zero)
    · have count : m.methodList.length = image.methods.length := by
        rw [length_methodList, numbered.rows .methodDef (by decide), ModuleImage.counted_of_parse parts.parsed]
        rfl
      obtain ⟨row, same⟩ := Nat.exists_eq_succ_of_ne_zero zero
      have found : (rowOf? m.methodList m.entryPoint.row).isSome = true := by
        rw [same]
        have bound : row < m.methodList.length := by omega
        simp [rowOf?, bound]
      refine .inr (.inr ?_)
      unfold method?
      rw [if_pos table, Option.isSome_map, found]

end Module

namespace Sample

/-- The module `linked` with an entry point. -/
def entered : Module := { linked with entryPoint := .ofRow .methodDef 1 }

def enteredImages : EmittedModule := (entered.emit fun _ => .zero).toOption.getD ⟨[], []⟩

/-- Symbols whose entry point is row zero of the methods. -/
def rowZeroSymbols : Bytes := enteredImages.symbols.set 112 0

end Sample

theorem Module.read_closed_sample : ∃ m, Module.read (Lookup.ofFunction .ok) {} "a" Sample.enteredImages.code
    (some Sample.enteredImages.symbols) () = .ok m () ∧ m.Closed ∧ (m.method? m.entryPoint).isSome = true := by
  have answers : ((answer? (Module.read (Lookup.ofFunction .ok) {} "a" Sample.enteredImages.code
      (some Sample.enteredImages.symbols) ())).any fun m => m.entryPoint == .ofRow .methodDef 1) = true := by
    decide +kernel
  obtain ⟨m, read, entry⟩ := exists_of_any answers
  rw [beq_iff_eq] at entry
  have owned : ((ModuleImage.parse Sample.enteredImages.code).toOption.any fun image => decide image.Owned) = true := by
    decide +kernel
  obtain ⟨found, parsed, owned⟩ := Outcome.exists_of_any owned
  obtain ⟨-, image, answered, holds⟩ := read_closed (.resolved read)
  cases answered.symm.trans parsed
  obtain ⟨closed, entered⟩ := holds (of_decide_eq_true owned)
  refine ⟨m, read, closed, ?_⟩
  rw [entry] at entered ⊢
  exact (entered.resolve_left (by decide)).resolve_left (by decide)

/-- The reader accepts an entry point that is no method. -/
theorem Module.read_enters_nowhere : ∃ m, Module.read (Lookup.ofFunction .ok) {} "a" Sample.enteredImages.code
    (some Sample.rowZeroSymbols) () = .ok m () ∧ m.entryPoint.isNull = false ∧ m.method? m.entryPoint = none := by
  have answers : ((answer? (Module.read (Lookup.ofFunction .ok) {} "a" Sample.enteredImages.code
      (some Sample.rowZeroSymbols) ())).any fun m => !m.entryPoint.isNull && m.method? m.entryPoint == none) = true := by
    decide +kernel
  obtain ⟨m, read, nowhere⟩ := exists_of_any answers
  rw [Bool.and_eq_true, Bool.not_eq_true', beq_iff_eq] at nowhere
  exact ⟨m, read, nowhere.1, nowhere.2⟩

end CilWeaver
