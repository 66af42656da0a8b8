import CilWeaver.Proofs.Bodies
import CilWeaver.Proofs.Runs
import CilWeaver.Proofs.TypedTables

/-!
The rows that are written for the parts of a module, and what they say: each row refers to heap
entries that hold the texts and blobs of its part. The tables of a module have as many rows as the module fills, and a
writer that ends well leaves them in the stream of tables.
-/

namespace CilWeaver

namespace CodedIndex

/-- The reference that a token is written as names the same row of the same table. -/
theorem ofToken_eq_ok {kind : CodedKind} {token : Token} {index : CodedIndex}
    (h : ofToken kind token = .ok index) :
    index.token = token ∧ index.row = token.row ∧ index.row < 2 ^ 24 ∧ index.table ∈ kind.tables := by
  unfold ofToken at h
  split at h
  · rename_i table found
    cases h
    have number := List.find?_some found
    rw [beq_iff_eq] at number
    have row : token.row < 2 ^ 24 := Nat.mod_lt _ (Nat.two_pow_pos 24)
    refine ⟨?_, rfl, row, List.mem_of_find?_eq_some found⟩
    have value : (Token.ofRow table token.row).value = token.value := by
      apply UInt32.toNat.inj
      rw [Token.toNat_ofRow, number, Token.tableNumber, Token.row]
      omega
    cases token
    exact congrArg Token.mk value
  · cases h

end CodedIndex

namespace ModuleDraft

/-- A reference in a column that is not null names the row of a token of the module. -/
structure HasReference (m : Module) (kind : CodedKind) (token : Token) (index : CodedIndex) : Prop where
  contained : m.contains token = true
  coded : CodedIndex.ofToken kind token = .ok index

structure HasModule (d : ModuleDraft) (m : Module) (row : ModuleRow) : Prop where
  generation : row.generation = m.generation
  name : d.HasString row.name m.name
  mvid : d.HasGuid row.mvid m.mvid
  unedited : row.encId = 0 ∧ row.encBaseId = 0

structure HasTypeRef (m : Module) (d : ModuleDraft) (r : TypeRef) (row : TypeRefRow) : Prop where
  scope : HasReference m .resolutionScope r.scope row.scope
  name : d.HasString row.name r.name
  namespaceName : d.HasString row.namespaceName r.namespaceName

structure HasMemberRef (m : Module) (d : ModuleDraft) (r : MemberRef) (row : MemberRefRow) : Prop where
  parent : HasReference m .memberRefParent r.parent row.parent
  name : d.HasString row.name r.name
  signature : d.HasBlob row.signature r.signature

structure HasField (d : ModuleDraft) (f : FieldDef) (row : FieldRow) : Prop where
  flags : row.flags = f.flags
  name : d.HasString row.name f.name
  signature : d.HasBlob row.signature f.signature

structure HasParam (d : ModuleDraft) (p : ParamDef) (row : ParamRow) : Prop where
  flags : row.flags = p.flags
  sequence : row.sequence = p.sequence
  name : d.HasString row.name p.name

structure HasMethod (m : Module) (d : ModuleDraft) (method : MethodDef) (rows : MethodRows) : Prop where
  body : ModuleWriter.HasBody m method.body? rows.row.address rows.offsets? d
  implFlags : rows.row.implFlags = method.implFlags
  flags : rows.row.flags = method.flags
  name : d.HasString rows.row.name method.name
  signature : d.HasBlob rows.row.signature method.signature
  params : List.Forall₂ d.HasParam method.params rows.params

/-- The base type of a type, of which null is a row zero. -/
def HasBaseType (m : Module) (token : Token) (index : CodedIndex) : Prop :=
  if token.isNull then index = ⟨.typeDef, 0⟩ else HasReference m .typeDefOrRef token index

structure HasType (m : Module) (d : ModuleDraft) (t : TypeDef) (rows : TypeRows) : Prop where
  flags : rows.row.flags = t.flags
  name : d.HasString rows.row.name t.name
  namespaceName : d.HasString rows.row.namespaceName t.namespaceName
  baseType : HasBaseType m t.baseType rows.row.baseType
  fields : List.Forall₂ d.HasField t.fields rows.fields
  methods : List.Forall₂ (d.HasMethod m) t.methods rows.methods

structure HasAssembly (d : ModuleDraft) (a : AssemblyIdentity) (row : AssemblyRow) : Prop where
  hashAlgorithm : row.hashAlgorithm = a.hashAlgorithm
  version : (⟨row.major, row.minor, row.build, row.revision⟩ : Version) = a.version
  flags : row.flags = a.flags
  publicKey : d.HasBlob row.publicKey a.publicKey
  name : d.HasString row.name a.name
  culture : d.HasString row.culture a.culture

structure HasAssemblyRef (d : ModuleDraft) (a : AssemblyRef) (row : AssemblyRefRow) : Prop where
  version : (⟨row.major, row.minor, row.build, row.revision⟩ : Version) = a.version
  flags : row.flags = a.flags
  key : d.HasBlob row.key a.key
  name : d.HasString row.name a.name
  culture : d.HasString row.culture a.culture
  hash : d.HasBlob row.hash a.hash

end ModuleDraft

namespace ModuleWriter

open ModuleDraft

theorem writes_moduleRow (m : Module) : Writes (moduleRow m) fun row d => d.HasModule m row := by
  unfold moduleRow
  refine ((writes_addString m.name).bind fun name => (writes_addGuid m.mvid).map _).mono ?_
  rintro row d ⟨name, hname, mvid, hmvid, rfl⟩
  exact ⟨rfl, hname, hmvid, rfl, rfl⟩

/-- A token that is checked and coded. -/
theorem writes_reference {α : Type} {m : Module} {kind : CodedKind} {context : String} {place : TokenPlace}
    {token : Token} {rest : CodedIndex → ModuleWriter α} {post : CodedIndex → α → ModuleDraft → Prop}
    (others : ∀ index, Writes (rest index) (post index)) :
    Writes (do
      check context (tokenCheck m place token)
      let index ← coded kind context token
      rest index) fun a d => ∃ index, HasReference m kind token index ∧ post index a d := by
  refine ((writes_check context _).bind fun _ => (writes_coded kind context token).bind others).mono ?_
  rintro a d ⟨-, contained, index, coded, holds⟩
  exact ⟨index, ⟨MethodBody.tokenCheck_eq_ok.mp contained, coded⟩, holds⟩

theorem writes_typeRefRow (m : Module) (r : TypeRef) (position : Nat) :
    Writes (typeRefRow m r position) fun row d => d.HasTypeRef m r row := by
  unfold typeRefRow
  refine (writes_reference fun scope => (writes_addString r.name).bind fun name =>
    (writes_addString r.namespaceName).map _).mono ?_
  rintro row d ⟨scope, hscope, name, hname, namespaceName, hnamespace, rfl⟩
  exact ⟨hscope, hname, hnamespace⟩

theorem writes_memberRefRow (m : Module) (r : MemberRef) (position : Nat) :
    Writes (memberRefRow m r position) fun row d => d.HasMemberRef m r row := by
  unfold memberRefRow
  refine (writes_reference fun parent => (writes_addString r.name).bind fun name =>
    (writes_addBlob r.signature).map _).mono ?_
  rintro row d ⟨parent, hparent, name, hname, signature, hsignature, rfl⟩
  exact ⟨hparent, hname, hsignature⟩

theorem writes_fieldRow (f : FieldDef) : Writes (fieldRow f) fun row d => d.HasField f row := by
  unfold fieldRow
  refine ((writes_addString f.name).bind fun name => (writes_addBlob f.signature).map _).mono ?_
  rintro row d ⟨name, hname, signature, hsignature, rfl⟩
  exact ⟨rfl, hname, hsignature⟩

theorem writes_paramRow (p : ParamDef) : Writes (paramRow p) fun row d => d.HasParam p row := by
  unfold paramRow
  refine ((writes_addString p.name).map _).mono ?_
  rintro row d ⟨name, hname, rfl⟩
  exact ⟨rfl, rfl, hname⟩

theorem writes_methodRows (m : Module) (owner : TypeDef) (firstParam : Nat) (method : MethodDef) :
    Writes (methodRows m owner firstParam method) fun rows d =>
      d.HasMethod m method rows ∧ rows.row.firstParam = firstParam := by
  unfold methodRows
  refine ((writes_addMethodBody m _ method.body?).bind fun found => (writes_addString method.name).bind
    fun name => (writes_addBlob method.signature).bind fun signature =>
      (Writes.mapM fun p _ => writes_paramRow p).map _).mono ?_
  rintro rows d ⟨found, hbody, name, hname, signature, hsignature, params, hparams, rfl⟩
  exact ⟨⟨hbody, rfl, rfl, hname, hsignature, hparams⟩, rfl⟩

theorem writes_allMethodRows (m : Module) (owner : TypeDef) (firstParam : Nat) (methods : List MethodDef) :
    Writes (allMethodRows m owner firstParam methods) fun rows d =>
      List.Forall₂ (d.HasMethod m) methods rows ∧
        rows.map (·.row.firstParam) = startsFrom firstParam (methods.map (·.params.length)) := by
  induction methods generalizing firstParam with
  | nil =>
    refine (Writes.pure []).mono ?_
    rintro rows d rfl
    exact ⟨.nil, rfl⟩
  | cons method methods ih =>
    rw [allMethodRows]
    refine ((writes_methodRows m owner firstParam method).bind fun rows => (ih _).map _).mono ?_
    rintro rows d ⟨first, ⟨has, start⟩, others, ⟨all, starts⟩, rfl⟩
    refine ⟨.cons has all, ?_⟩
    rw [List.map_cons, start, starts, List.map_cons, startsFrom]

theorem writes_baseType (m : Module) (t : TypeDef) :
    Writes (baseType m t) fun index _ => HasBaseType m t.baseType index := by
  unfold baseType HasBaseType
  refine Writes.ite (fun null => (Writes.pure _).mono ?_) fun named => ?_
  · rintro index d rfl
    rw [if_pos null]
  · refine ((writes_check _ _).bind fun _ => writes_coded .typeDefOrRef _ t.baseType).mono ?_
    rintro index d ⟨-, contained, coded⟩
    rw [if_neg named]
    exact ⟨MethodBody.tokenCheck_eq_ok.mp contained, coded⟩

theorem writes_typeRows (m : Module) (firstField firstMethod firstParam : Nat) (t : TypeDef) :
    Writes (typeRows m firstField firstMethod firstParam t) fun rows d =>
      d.HasType m t rows ∧ rows.row.firstField = firstField ∧ rows.row.firstMethod = firstMethod ∧
        rows.methods.map (·.row.firstParam) = startsFrom firstParam (t.methods.map (·.params.length)) := by
  unfold typeRows
  refine ((writes_baseType m t).bind fun baseType => (writes_addString t.name).bind fun name =>
    (writes_addString t.namespaceName).bind fun namespaceName =>
      (Writes.mapM fun f _ => writes_fieldRow f).bind fun fields =>
        (writes_allMethodRows m t firstParam t.methods).map _).mono ?_
  rintro rows d ⟨baseType, hbase, name, hname, namespaceName, hnamespace, fields, hfields, methods,
    ⟨hmethods, starts⟩, rfl⟩
  exact ⟨⟨rfl, hname, hnamespace, hbase, hfields, hmethods⟩, rfl, rfl, starts⟩

/-- The starts of the members of all types. -/
structure Starts (firstField firstMethod firstParam : Nat) (types : List TypeDef) (rows : List TypeRows) :
    Prop where
  fields : rows.map (·.row.firstField) = startsFrom firstField (types.map (·.fields.length))
  methods : rows.map (·.row.firstMethod) = startsFrom firstMethod (types.map (·.methods.length))
  params : (rows.flatMap (·.methods)).map (·.row.firstParam) =
    startsFrom firstParam ((types.flatMap (·.methods)).map (·.params.length))

theorem writes_allTypeRows (m : Module) (firstField firstMethod firstParam : Nat) (types : List TypeDef) :
    Writes (allTypeRows m firstField firstMethod firstParam types) fun rows d =>
      List.Forall₂ (d.HasType m) types rows ∧ Starts firstField firstMethod firstParam types rows := by
  induction types generalizing firstField firstMethod firstParam with
  | nil =>
    refine (Writes.pure []).mono ?_
    rintro rows d rfl
    exact ⟨.nil, rfl, rfl, rfl⟩
  | cons t types ih =>
    rw [allTypeRows]
    refine ((writes_typeRows m firstField firstMethod firstParam t).bind fun rows => (ih _ _ _).map _).mono ?_
    rintro rows d ⟨first, ⟨has, field, method, params⟩, others, ⟨all, starts⟩, rfl⟩
    refine ⟨.cons has all, ?_, ?_, ?_⟩
    · rw [List.map_cons, field, starts.fields, List.map_cons, startsFrom]
    · rw [List.map_cons, method, starts.methods, List.map_cons, startsFrom]
    · rw [List.flatMap_cons, List.map_append, params, starts.params, List.flatMap_cons, List.map_append,
        startsFrom_append]

theorem writes_signatureRow (signature : Bytes) :
    Writes (signatureRow signature) fun row d => d.HasBlob row.signature signature := by
  unfold signatureRow
  refine ((writes_addBlob signature).map _).mono ?_
  rintro row d ⟨index, holds, rfl⟩
  exact holds

theorem writes_assemblyRow (a : AssemblyIdentity) :
    Writes (assemblyRow a) fun row d => d.HasAssembly a row := by
  unfold assemblyRow
  refine ((writes_addBlob a.publicKey).bind fun publicKey => (writes_addString a.name).bind fun name =>
    (writes_addString a.culture).map _).mono ?_
  rintro row d ⟨publicKey, hkey, name, hname, culture, hculture, rfl⟩
  exact ⟨rfl, rfl, rfl, hkey, hname, hculture⟩

theorem writes_assemblyRefRow (a : AssemblyRef) :
    Writes (assemblyRefRow a) fun row d => d.HasAssemblyRef a row := by
  unfold assemblyRefRow
  refine ((writes_addBlob a.key).bind fun key => (writes_addString a.name).bind fun name =>
    (writes_addString a.culture).bind fun culture => (writes_addBlob a.hash).map _).mono ?_
  rintro row d ⟨key, hkey, name, hname, culture, hculture, hash, hhash, rfl⟩
  exact ⟨rfl, rfl, hkey, hname, hculture, hhash⟩

end ModuleWriter

namespace ModuleRows

open ModuleWriter

/-- The rows say what is in the module. -/
structure Describes (rows : ModuleRows) (m : Module) (d : ModuleDraft) : Prop where
  entryPoint : entryPointCheck m = .ok ()
  module : d.HasModule m rows.module
  typeRefs : List.Forall₂ (d.HasTypeRef m) m.typeRefs rows.typeRefs
  types : List.Forall₂ (d.HasType m) m.types rows.types
  starts : Starts 1 1 1 m.types rows.types
  memberRefs : List.Forall₂ (d.HasMemberRef m) m.memberRefs rows.memberRefs
  signatures : List.Forall₂ (fun blob (row : StandAloneSigRow) => d.HasBlob row.signature blob)
    m.localSignatures rows.signatures
  assembly : List.Forall₂ d.HasAssembly m.assembly?.toList rows.assembly
  assemblyRefs : List.Forall₂ d.HasAssemblyRef m.assemblyRefs rows.assemblyRefs

/-- A step for each item and its position. -/
theorem writes_mapM_zipIdx {α β : Type} {f : α × Nat → ModuleWriter β} {items : List α}
    (post : α → β → ModuleDraft → Prop) (each : ∀ item, Writes (f item) (post item.1)) :
    Writes (items.zipIdx.mapM f) fun results d => List.Forall₂ (fun a b => post a b d) items results := by
  refine (Writes.mapM fun item _ => each item).mono fun results d all => ?_
  have items' : items.zipIdx.map Prod.fst = items := List.zipIdx_map_fst 0 items
  rw [← items', List.forall₂_map_left_iff]
  exact all

theorem writes_ofModule (m : Module) : Writes (ofModule m) fun rows d => rows.Describes m d := by
  unfold ofModule
  refine ((writes_check _ _).bind fun _ => (writes_moduleRow m).bind fun module =>
    (writes_mapM_zipIdx (fun r row d => d.HasTypeRef m r row) fun item =>
      writes_typeRefRow m item.1 item.2).bind fun typeRefs =>
      (writes_allTypeRows m 1 1 1 m.types).bind fun types =>
        (writes_mapM_zipIdx (fun r row d => d.HasMemberRef m r row) fun item =>
          writes_memberRefRow m item.1 item.2).bind fun memberRefs =>
          (Writes.mapM fun signature _ => writes_signatureRow signature).bind fun signatures =>
            (Writes.mapM fun a _ => writes_assemblyRow a).bind fun assembly =>
              (Writes.mapM fun a _ => writes_assemblyRefRow a).map _).mono ?_
  rintro rows d ⟨-, entryPoint, module, hmodule, typeRefs, hrefs, types, ⟨htypes, starts⟩, memberRefs,
    hmembers, signatures, hsignatures, assembly, hassembly, assemblyRefs, hassemblyRefs, rfl⟩
  exact ⟨entryPoint, hmodule, hrefs, htypes, starts, hmembers, hsignatures, hassembly, hassemblyRefs⟩

end ModuleRows

/-! The tables of a module -/

open Step TableRows

namespace ModuleRows

/-- The tables of the rows, in the order of the image. -/
def tables (rows : ModuleRows) : List TableRows :=
  [of [rows.module], of rows.typeRefs, of (rows.types.map (·.row)), of (rows.types.flatMap (·.fields)),
    of (rows.methods.map (·.row)), of (rows.methods.flatMap (·.params)), of rows.memberRefs,
    of rows.signatures, of rows.assembly, of rows.assemblyRefs]

theorem addTo_eq (rows : ModuleRows) :
    rows.addTo = rows.tables.forM fun table => TableStreamBuilder.addValues table.1 table.2 := by
  unfold addTo tables
  simp only [List.forM, bind_pure_unit]
  rfl

theorem addTo_ok {rows : ModuleRows} {layout : Layout} {b : TableStreamBuilder}
    (run : rows.addTo { layout } = .ok () b) : b.layout = layout ∧ b.Contains (filled rows.tables) := by
  rw [addTo_eq] at run
  exact TableStreamBuilder.addAll_ok (TableStreamBuilder.contains_nil layout) run

variable {rows : ModuleRows} {m : Module} {d : ModuleDraft}

/-- The methods of the rows are those of the module, in order. -/
theorem Describes.methods (described : rows.Describes m d) :
    List.Forall₂ (d.HasMethod m) (m.types.flatMap (·.methods)) rows.methods :=
  forall₂_flatMap described.types fun _ _ has => has.methods

theorem Describes.fields (described : rows.Describes m d) :
    List.Forall₂ d.HasField (m.types.flatMap (·.fields)) (rows.types.flatMap (·.fields)) :=
  forall₂_flatMap described.types fun _ _ has => has.fields

theorem Describes.params (described : rows.Describes m d) :
    List.Forall₂ d.HasParam ((m.types.flatMap (·.methods)).flatMap (·.params)) (rows.methods.flatMap (·.params)) :=
  forall₂_flatMap described.methods fun _ _ has => has.params

theorem methodList_map_snd (m : Module) : m.methodList.map (·.2) = m.types.flatMap (·.methods) := by
  unfold Module.methodList
  rw [List.map_flatMap]
  congr 1
  funext t
  rw [List.map_map]
  exact List.map_id' t.methods

/-- The tables have as many rows as the module fills. -/
theorem Describes.counts_tables (described : rows.Describes m d) :
    counts rows.tables = Table.ofModule.map fun t => (t, m.rows t) := by
  have assembly := described.assembly.length_eq
  have one : m.assembly?.toList.length = if m.assembly?.isSome then 1 else 0 := by
    cases m.assembly? <;> rfl
  have params : (m.methodList.map (·.2.params.length)).sum =
      ((m.types.flatMap (·.methods)).map (·.params.length)).sum := by
    rw [← methodList_map_snd, List.map_map]
    rfl
  simp only [counts, tables, of, count, List.map_cons, List.map_nil, List.length_map, List.length_cons,
    List.length_nil, Table.ofModule, Module.rows]
  rw [← described.typeRefs.length_eq, ← described.types.length_eq, ← described.fields.length_eq,
    ← described.methods.length_eq, ← described.params.length_eq, ← described.memberRefs.length_eq,
    ← described.signatures.length_eq, ← assembly, ← described.assemblyRefs.length_eq, one, params]
  simp only [List.length_flatMap]
  rfl

theorem Describes.distinct (described : rows.Describes m d) : (rows.tables.map (·.1)).Nodup := by
  rw [← tables_counts, described.counts_tables, List.map_map]
  have numbers : Table.ofModule.map (Prod.fst ∘ fun t => (t, m.rows t)) = Table.ofModule := List.map_id' _
  rw [numbers]
  decide

theorem row_lt_of_reference {kind : CodedKind} {token : Token} {index : CodedIndex}
    (has : ModuleDraft.HasReference m kind token index) : index.row < 2 ^ 24 :=
  (CodedIndex.ofToken_eq_ok has.coded).2.2.1

theorem row_lt_of_baseType {token : Token} {index : CodedIndex} (has : ModuleDraft.HasBaseType m token index) :
    index.row < 2 ^ 24 := by
  unfold ModuleDraft.HasBaseType at has
  split at has
  · subst has
    decide
  · exact row_lt_of_reference has

/-- Every item on the right is related to one on the left. -/
theorem exists_of_mem_right {α β : Type} {R : α → β → Prop} {as : List α} {bs : List β}
    (all : List.Forall₂ R as bs) {b : β} (member : b ∈ bs) : ∃ a, R a b := by
  obtain ⟨a, -, related⟩ := forall₂_of_mem all.flip member
  exact ⟨a, related⟩

/-- The rows refer to nothing beyond the reach of tokens. -/
theorem Describes.good (described : rows.Describes m d) : ∀ t ∈ rows.tables, t.Good := by
  have small : ∀ {ρ : Type} [TableRow ρ] {items : List ρ},
      (∀ row ∈ items, Values.Small (TableRow.table ρ).columns (TableRow.toValues row)) →
      ∀ values ∈ (of items).2, Values.Small (of items).1.columns values := by
    intro ρ _ items all values member
    obtain ⟨row, mem, rfl⟩ := List.mem_map.mp member
    exact all row mem
  unfold tables
  simp only [List.forall_mem_cons, List.not_mem_nil, false_imp_iff, implies_true, and_true]
  refine ⟨⟨List.cons_ne_nil _ _, small fun row _ => ?_⟩, ⟨List.cons_ne_nil _ _, small fun row member => ?_⟩,
    ⟨List.cons_ne_nil _ _, small fun row member => ?_⟩, ⟨List.cons_ne_nil _ _, small fun row _ => ?_⟩,
    ⟨List.cons_ne_nil _ _, small fun row _ => ?_⟩, ⟨List.cons_ne_nil _ _, small fun row _ => ?_⟩,
    ⟨List.cons_ne_nil _ _, small fun row member => ?_⟩, ⟨List.cons_ne_nil _ _, small fun row _ => ?_⟩,
    ⟨List.cons_ne_nil _ _, small fun row _ => ?_⟩, ⟨List.cons_ne_nil _ _, small fun row _ => ?_⟩⟩
  · exact ⟨trivial, trivial, trivial, trivial, trivial, trivial⟩
  · obtain ⟨r, has⟩ := exists_of_mem_right described.typeRefs member
    exact ⟨row_lt_of_reference has.scope, trivial, trivial, trivial⟩
  · obtain ⟨typeRows, mem, rfl⟩ := List.mem_map.mp member
    obtain ⟨t, has⟩ := exists_of_mem_right described.types mem
    exact ⟨trivial, trivial, trivial, row_lt_of_baseType has.baseType, trivial, trivial, trivial⟩
  · exact ⟨trivial, trivial, trivial, trivial⟩
  · exact ⟨trivial, trivial, trivial, trivial, trivial, trivial, trivial⟩
  · exact ⟨trivial, trivial, trivial, trivial⟩
  · obtain ⟨r, has⟩ := exists_of_mem_right described.memberRefs member
    exact ⟨row_lt_of_reference has.parent, trivial, trivial, trivial⟩
  · exact ⟨trivial, trivial⟩
  · exact ⟨trivial, trivial, trivial, trivial, trivial, trivial, trivial, trivial, trivial, trivial⟩
  · exact ⟨trivial, trivial, trivial, trivial, trivial, trivial, trivial, trivial, trivial, trivial⟩

end ModuleRows

end CilWeaver
