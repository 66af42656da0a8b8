import CilWeaver.Proofs.ReadReferences
import CilWeaver.Proofs.ReadRows
import CilWeaver.Proofs.StreamRanges

/-!
The references in the rows of an image that is read. A row is looked up through a token, which has room for 24 bits of
it: a reference names a row of the image once its higher bits are left out, and a column of two bytes has none of them.
-/

namespace CilWeaver

open Step TableRows

/-- A reference that was read from a column with a tag for its table. -/
theorem Layout.bounds_of_coded {l : Layout} {kind : CodedKind} {index : CodedIndex}
    (taken : ∃ bytes, l.writeColumn (.coded kind) index = .ok bytes) (whole : index.stored kind = index) :
    index.table ∈ kind.tables ∧ index.row * 2 ^ kind.tagBits < 256 ^ columnWidth (l.wideCoded kind) := by
  obtain ⟨bytes, written⟩ := taken
  obtain ⟨value, encoded, column⟩ := Outcome.bind_eq_ok.mp written
  refine ⟨CodedIndex.mem_tables_of_encode encoded, ?_⟩
  have fits := lt_of_column column
  have decoded := CodedIndex.decode_encode_stored encoded
  rw [whole, CodedIndex.decode] at decoded
  cases found : kind.tables[value % 2 ^ kind.tagBits]? with
  | none =>
    simp only [found] at decoded
    cases decoded
  | some table =>
    simp only [found] at decoded
    cases decoded
    exact Nat.lt_of_le_of_lt (Nat.div_mul_le_self value _) fits

namespace ModuleImage

variable {image : ModuleImage}

/-- The references in the rows of an image, each with the kind of its column. -/
def references (image : ModuleImage) : List (CodedKind × CodedIndex) :=
  image.typeRefs.map (fun r => (.resolutionScope, r.scope)) ++
    (image.typeDefs.map (fun r => (.typeDefOrRef, r.baseType)) ++
      image.memberRefs.map fun r => (.memberRefParent, r.parent))

/-- The row of a reference is one of its table. Base types alone may be row zero. -/
def InRange (image : ModuleImage) (r : CodedKind × CodedIndex) : Prop :=
  (r.1 = .typeDefOrRef ∧ r.2.row = 0) ∨ (1 ≤ r.2.row ∧ r.2.row ≤ image.rows r.2.table)

theorem forall_mem_references {p : CodedKind × CodedIndex → Prop} :
    (∀ r ∈ image.references, p r) ↔ (∀ row ∈ image.typeRefs, p (.resolutionScope, row.scope)) ∧
      (∀ row ∈ image.typeDefs, p (.typeDefOrRef, row.baseType)) ∧
        ∀ row ∈ image.memberRefs, p (.memberRefParent, row.parent) := by
  unfold references
  simp only [List.forall_mem_append, List.forall_mem_map]

/-- References are those that a column of their kind can hold. -/
theorem bounds_of_parse {data : Bytes} (parsed : parse data = .ok image) : ∀ r ∈ image.references,
    r.2.table ∈ r.1.tables ∧ r.2.row * 2 ^ r.1.tagBits < 256 ^ columnWidth (image.layout.wideCoded r.1) := by
  obtain ⟨-, s, -, tabled⟩ := tabled_of_parse data image parsed
  have stored := stored_of_parse data image parsed
  have whole : ∀ (ρ : Type) [TableRow ρ], Outcome.Answers (s.rows ρ) fun rows =>
      ∀ row ∈ rows, Values.stored _ (TableRow.toValues row) = TableRow.toValues row := fun ρ _ =>
    TableStream.answers_rows (s.layout.answers_readValues_stored _)
  rw [forall_mem_references]
  refine ⟨fun row member => ?_, fun row member => ?_, fun row member => ?_⟩
  · obtain ⟨scope, -⟩ := stored.typeRefs row member
    exact Layout.bounds_of_coded scope (congrArg Prod.fst (whole _ _ tabled.typeRefs row member))
  · obtain ⟨-, -, -, baseType, -⟩ := stored.typeDefs row member
    exact Layout.bounds_of_coded baseType (congrArg (fun values => values.2.2.2.1) (whole _ _ tabled.typeDefs row member))
  · obtain ⟨parent, -⟩ := stored.memberRefs row member
    exact Layout.bounds_of_coded parent (congrArg Prod.fst (whole _ _ tabled.memberRefs row member))

theorem contains_of_table (image : ModuleImage) {token : Token} {t : Table} (named : token.table? = some t) :
    image.contains token = true ↔ 1 ≤ token.row ∧ token.row ≤ image.layout.rows t := by
  unfold contains
  simp only [named, Bool.and_eq_true, decide_eq_true_eq]

theorem contains_reference (image : ModuleImage) (index : CodedIndex) : image.contains index.token = true ↔
    1 ≤ index.row % 2 ^ 24 ∧ index.row % 2 ^ 24 ≤ image.layout.rows index.table := by
  rw [← Token.row_ofRow index.table index.row]
  exact image.contains_of_table (Token.table?_ofRow index.table index.row)

/-- The image has no more rows of a table than tokens can name. -/
theorem rows_le_of_parse {data : Bytes} (parsed : parse data = .ok image) (t : Table) : image.rows t ≤ maxRows := by
  have bounded := bounded_of_parse data image parsed
  cases t with
  | typeRef => exact bounded.typeRefs
  | typeDef => exact bounded.typeDefs
  | field => exact bounded.fields
  | methodDef => exact bounded.methods
  | param => exact bounded.params
  | memberRef => exact bounded.memberRefs
  | standAloneSig => exact bounded.signatures
  | assemblyRef => exact bounded.assemblyRefs
  | module => exact (by decide : 1 ≤ maxRows)
  | assembly => exact Nat.le_trans Option.length_toList_le (by decide)
  | moduleRef | typeSpec | document | methodDebugInformation => exact Nat.zero_le _

/-- The bits of a reference that a token holds name a row, unless all bits are zero in a base type. -/
theorem named_of_parse {data : Bytes} (parsed : parse data = .ok image) : ∀ r ∈ image.references,
    (r.1 = .typeDefOrRef ∧ r.2.row = 0) ∨
      (1 ≤ r.2.row % 2 ^ 24 ∧ r.2.row % 2 ^ 24 ≤ image.rows r.2.table) := by
  have referring := referring_of_parse parsed
  have named : ∀ index : CodedIndex, image.contains index.token = true →
      1 ≤ index.row % 2 ^ 24 ∧ index.row % 2 ^ 24 ≤ image.rows index.table := by
    intro index contained
    rw [← counted_of_parse parsed]
    exact (image.contains_reference index).mp contained
  rw [forall_mem_references]
  refine ⟨fun row member => .inr (named _ (referring.scopes row member)), fun row member => ?_,
    fun row member => .inr (named _ (referring.parents row member))⟩
  exact (referring.baseTypes row member).imp (fun null => ⟨rfl, beq_iff_eq.mp null⟩) (named _)

/-- References whose bits name a row pass the check. -/
theorem checkReference_of_named {nullable : Bool} {column : ReferenceColumn} {index : CodedIndex}
    (named : 1 ≤ index.row % 2 ^ 24 ∧ index.row % 2 ^ 24 ≤ image.layout.rows index.table) :
    image.checkReference nullable column index = .ok () := by
  have stored : ¬ index.isNull = true := by
    intro null
    rw [beq_iff_eq.mp null] at named
    omega
  unfold checkReference
  rw [if_neg stored, if_pos ((image.contains_reference index).mpr named)]

/-- An image without types of its own has no lists to check. -/
theorem checkIndices_of_named (types : image.typeDefs = []) (methods : image.methods = [])
    (named : ∀ r ∈ image.references, 1 ≤ r.2.row % 2 ^ 24 ∧ r.2.row % 2 ^ 24 ≤ image.layout.rows r.2.table) :
    image.checkIndices = .ok () := by
  obtain ⟨scopes, baseTypes, parents⟩ := forall_mem_references.mp named
  unfold checkIndices
  refine Outcome.bind_eq_ok.mpr ⟨(), Outcome.forM_eq_ok.mpr ?_, Outcome.bind_eq_ok.mpr ⟨(), Outcome.forM_eq_ok.mpr ?_,
    Outcome.bind_eq_ok.mpr ⟨(), Outcome.forM_eq_ok.mpr ?_, ?_⟩⟩⟩
  · rintro ⟨row, position⟩ member
    exact checkReference_of_named (scopes row (List.fst_mem_of_mem_zipIdx member))
  · rintro ⟨row, position⟩ member
    exact checkReference_of_named (baseTypes row (List.fst_mem_of_mem_zipIdx member))
  · rintro ⟨row, position⟩ member
    exact checkReference_of_named (parents row (List.fst_mem_of_mem_zipIdx member))
  · unfold fieldRuns methodRuns paramRuns
    rw [types, methods]
    rfl

end ModuleImage

namespace Sample

/-- A module, so many references to types, and one to a member of the type in a row. -/
def typesAndMember (count row : Nat) : RowLists
  | .module => [TableRow.toValues (⟨0, 0, 1, 0, 0⟩ : ModuleRow)]
  | .typeRef => (List.replicate count (⟨⟨.module, 1⟩, 0, 0⟩ : TypeRefRow)).map TableRow.toValues
  | .memberRef => [TableRow.toValues (⟨⟨.typeRef, row⟩, 0, 0⟩ : MemberRefRow)]
  | _ => []

variable {count row : Nat}

theorem rows_typesAndMember (t : Table) : ((typesAndMember count row).layout Table.ofModule 0).rows t =
    if t ∈ Table.ofModule then (typesAndMember count row t).length else 0 := RowLists.rows_layout (by decide) 0 t

theorem takes_typesAndMember (many : 2 ^ 13 ≤ count) (t : Table) : ∀ values ∈ typesAndMember count row t,
    ((typesAndMember count row).layout Table.ofModule 0).Takes t.columns values := by
  have zero : ∀ wide, ∃ bytes, column wide 0 = .ok bytes := fun wide => Layout.exists_column_small wide (by decide)
  have one : ∀ wide, ∃ bytes, column wide 1 = .ok bytes := fun wide => Layout.exists_column_small wide (by decide)
  intro values member
  cases t with
  | module =>
    cases List.mem_singleton.mp member
    exact ⟨⟨_, rfl⟩, zero _, one _, zero _, zero _, trivial⟩
  | typeRef =>
    obtain ⟨r, listed, rfl⟩ := List.mem_map.mp member
    cases List.eq_of_mem_replicate listed
    refine ⟨Layout.exists_coded (by decide) ?_, zero _, zero _, trivial⟩
    rw [rows_typesAndMember]
    exact Nat.le_refl 1
  | memberRef =>
    cases List.mem_singleton.mp member
    have wide : ((typesAndMember count row).layout Table.ofModule 0).wideCoded .memberRefParent = true := by
      refine List.any_eq_true.mpr ⟨.typeRef, by decide, decide_eq_true ?_⟩
      rw [rows_typesAndMember, if_pos (by decide), typesAndMember, List.length_map, List.length_replicate]
      exact many
    obtain ⟨bytes, parent⟩ : ∃ bytes, column true ((row * 2 ^ 3 + 1) % 2 ^ 32) = .ok bytes :=
      Layout.exists_column (fun narrow => by cases narrow) (Nat.mod_lt _ (Nat.two_pow_pos 32))
    refine ⟨⟨bytes, ?_⟩, zero _, zero _, trivial⟩
    rw [← wide] at parent
    exact parent
  | _ => exact absurd member List.not_mem_nil

theorem stored_typesAndMember (small : row < 2 ^ 29) (t : Table) : ∀ values ∈ typesAndMember count row t,
    Values.stored t.columns values = values := by
  intro values member
  cases t with
  | module =>
    cases List.mem_singleton.mp member
    rfl
  | typeRef =>
    obtain ⟨r, listed, rfl⟩ := List.mem_map.mp member
    cases List.eq_of_mem_replicate listed
    rfl
  | memberRef =>
    cases List.mem_singleton.mp member
    have parent : CodedIndex.stored .memberRefParent ⟨.typeRef, row⟩ = ⟨.typeRef, row⟩ := CodedIndex.stored_of_lt small
    exact Prod.ext parent rfl
  | _ => exact absurd member List.not_mem_nil

/-- The image with these tables and almost empty heaps. -/
def typesAndMemberImage (count row : Nat) : ModuleImage where
  version := "v"
  strings := ⟨[0, 0, 0, 0]⟩
  userStrings? := none
  blobs := ⟨[0, 0, 0, 0]⟩
  guids := ⟨List.replicate 16 1⟩
  il := []
  codeView? := none
  layout := (typesAndMember count row).layout Table.ofModule 0
  moduleRow := ⟨0, 0, 1, 0, 0⟩
  assembly? := none
  typeRefs := List.replicate count ⟨⟨.module, 1⟩, 0, 0⟩
  typeDefs := []
  fields := []
  methods := []
  params := []
  memberRefs := [⟨⟨.typeRef, row⟩, 0, 0⟩]
  signatures := []
  assemblyRefs := []

def streamsWith (tables : Bytes) : List (String × Bytes) :=
  [(StreamName.tables, tables), (StreamName.strings, [0]), (StreamName.guids, List.replicate 16 1), (StreamName.blobs, [0])]

theorem found_typesAndMemberImage {tables : Bytes} (small : tables.length < 2 ^ 31) :
    ∃ data root, (typesAndMemberImage count row).Found data (padTo 4 tables) root := by
  have names : (streamsWith tables).map (·.1) = (streamsWith []).map (·.1) := rfl
  have good : Root.Streams (streamsWith tables) := by
    refine ⟨by simp [streamsWith, StreamName.known], ?_, List.cons_ne_nil _ _, by simp [streamsWith]⟩
    rw [names]
    decide
  have root : Root.rootSize "v" (streamsWith tables) ≤ 2 ^ 10 := by
    change Root.rootSize "v" (streamsWith []) ≤ 2 ^ 10
    decide +kernel
  have size : (Root.contents (streamsWith tables)).length = (tables.length + 3) / 4 * 4 + 24 := by
    unfold streamsWith
    rw [Root.contents_cons, List.length_append, Root.padTo_length_eq]
    rfl
  have fits : Root.rootSize "v" (streamsWith tables) + (Root.contents (streamsWith tables)).length < 2 ^ 32 := by
    rw [size]
    omega
  obtain ⟨data, built⟩ := Root.exists_build (by decide) fits
  have stream := Root.stream?_ofStreams built
  refine ⟨data, _, Root.parse_build built (by decide) good (Root.length_build built ▸ fits), rfl, stream _, ⟨_, stream _, rfl⟩,
    ⟨_, stream _, rfl⟩, ⟨_, stream _, rfl⟩, ?_, ?_, rfl, ?_, stream _⟩
  · rw [stream]
    rfl
  · rw [stream]
    rfl
  · rw [stream]
    rfl

theorem space_typesAndMember :
    tableSpace (counts ((typesAndMember count row).ofTables Table.ofModule)) = 97 + 12 * count := by
  have module : Table.module.rowSpace = 18 := rfl
  have typeRef : Table.typeRef.rowSpace = 12 := rfl
  have memberRef : Table.memberRef.rowSpace = 12 := rfl
  simp only [tableSpace, counts, RowLists.ofTables, Table.ofModule, List.map_cons, List.map_nil, List.sum_cons, List.sum_nil,
    TableRows.count, typesAndMember, List.length_map, List.length_replicate, List.length_singleton, List.length_nil, module,
    typeRef, memberRef]
  omega

theorem parseParts_typesAndMember (many : 2 ^ 13 ≤ count) (few : count ≤ maxRows) (small : row < 2 ^ 29) :
    ∃ data, ModuleImage.parseParts data = .ok (typesAndMemberImage count row) := by
  have storable : RowLists.Storable Table.ofModule := RowLists.storable_of_image (.inl rfl)
  obtain ⟨b, added⟩ := @RowLists.exists_added (typesAndMember count row) Table.ofModule 0 (by decide) fun t _ =>
    takes_typesAndMember many t
  obtain ⟨layout, contains⟩ := RowLists.added_ok added
  have countable : ∀ t ∈ Table.ofModule, (typesAndMember count row t).length ≤ maxRows := by
    intro t _
    unfold maxRows at few ⊢
    cases t <;> simp [typesAndMember]
    exact few
  have typed : ∀ {ρ : Type} [TableRow ρ] (items : List ρ), TableRow.table ρ ∈ Table.ofModule →
      typesAndMember count row (TableRow.table ρ) = items.map TableRow.toValues → _ := fun items listed same =>
    (RowLists.rows_added storable (fun t _ => stored_typesAndMember small t) contains same).trans
      (congrArg Except.ok (if_pos listed))
  have length : b.build.length < 2 ^ 31 := by
    have bound := TableStreamBuilder.length_build_le contains
    rw [space_typesAndMember] at bound
    unfold maxRows at few
    omega
  obtain ⟨data, root, found⟩ := found_typesAndMemberImage length
  obtain ⟨rest, same, last⟩ := found.parseParts_eq
  have aligned : padTo 4 b.build = b.build := padTo_padTo _
  rw [aligned, RowLists.parse_added storable countable added, Outcome.ok_bind] at same
  exact ⟨data, same.trans (last _ ⟨layout.symm, typed _ (by decide) rfl, ⟨_, typed [] (by decide) rfl, rfl⟩,
    typed _ (by decide) rfl, typed _ (by decide) rfl, typed _ (by decide) rfl, typed _ (by decide) rfl,
    typed _ (by decide) rfl, typed _ (by decide) rfl, typed _ (by decide) rfl, typed _ (by decide) rfl⟩)⟩

/-- The reference is accepted if the bits that a token holds name one of the types. -/
theorem parse_typesAndMember (many : 2 ^ 13 ≤ count) (few : count ≤ maxRows) (small : row < 2 ^ 29)
    (named : 1 ≤ row % 2 ^ 24 ∧ row % 2 ^ 24 ≤ count) :
    ∃ data, ModuleImage.parse data = .ok (typesAndMemberImage count row) := by
  obtain ⟨data, parts⟩ := parseParts_typesAndMember many few small
  have modules : (typesAndMemberImage count row).layout.rows .module = 1 := rows_typesAndMember .module
  have types : (typesAndMemberImage count row).layout.rows .typeRef = count := by
    refine (rows_typesAndMember .typeRef).trans ?_
    rw [if_pos (by decide), typesAndMember, List.length_map, List.length_replicate]
  have checked : (typesAndMemberImage count row).checkIndices = .ok () := by
    refine ModuleImage.checkIndices_of_named rfl rfl (ModuleImage.forall_mem_references.mpr
      ⟨fun r member => ?_, fun _ impossible => absurd impossible List.not_mem_nil, fun r member => ?_⟩)
    · cases List.eq_of_mem_replicate member
      exact ⟨Nat.le_refl 1, modules.symm.le⟩
    · cases List.mem_singleton.mp member
      exact ⟨named.1, named.2.trans types.symm.le⟩
  refine ⟨data, ?_⟩
  unfold ModuleImage.parse
  rw [parts, Outcome.ok_bind, checked]
  rfl

theorem member_references (count row : Nat) :
    (.memberRefParent, ⟨.typeRef, row⟩) ∈ (typesAndMemberImage count row).references :=
  List.mem_append_right _ (List.mem_append_right _ List.mem_cons_self)

end Sample

namespace ModuleImage

/-- Each reference of an image that is read selects a table for its column. The row is zero in a base type, or the bits
    that a token holds are a row of the table. So a row is in range exactly if a token can hold it, and all are in a
    column of two bytes. -/
theorem references_in_range {data : Bytes} {image : ModuleImage} (parsed : parse data = .ok image) : ∀ r ∈ image.references,
    r.2.table ∈ r.1.tables ∧
      ((r.1 = .typeDefOrRef ∧ r.2.row = 0) ∨
        (r.2.row ≠ 0 ∧ 1 ≤ r.2.row % 2 ^ 24 ∧ r.2.row % 2 ^ 24 ≤ image.rows r.2.table)) ∧
      (image.InRange r ↔ r.2.row < 2 ^ 24) ∧
      (image.layout.wideCoded r.1 = false → image.InRange r) := by
  intro r member
  obtain ⟨candidate, bound⟩ := bounds_of_parse parsed r member
  have named := named_of_parse parsed r member
  have few := rows_le_of_parse parsed r.2.table
  have range : image.InRange r ↔ r.2.row < 2 ^ 24 := by
    unfold InRange
    unfold maxRows at few
    constructor
    · omega
    · intro small
      rw [Nat.mod_eq_of_lt small] at named
      exact named
  refine ⟨candidate, named.imp_right fun inside => ⟨fun zero => ?_, inside⟩, range, fun narrow => ?_⟩
  · rw [zero] at inside
    omega
  · have shifted : r.2.row ≤ r.2.row * 2 ^ r.1.tagBits := Nat.le_mul_of_pos_right _ (Nat.two_pow_pos _)
    rw [narrow] at bound
    exact range.mpr (Nat.lt_of_le_of_lt shifted (Nat.lt_trans bound (by decide)))

/-- With the least number of types that makes the column wide, a row far behind the last one stands for row one. -/
theorem references_in_range_wide : ∃ data image, parse data = .ok image ∧
    ((.memberRefParent, ⟨.typeRef, 0x1000001⟩) : CodedKind × CodedIndex) ∈ image.references ∧
      0x1000001 % 2 ^ 24 ≤ image.rows .typeRef := by
  obtain ⟨data, parsed⟩ := @Sample.parse_typesAndMember 0x2000 0x1000001 (by decide) (by decide) (by decide) (by decide)
  have listed := Sample.member_references 0x2000 0x1000001
  obtain ⟨-, (⟨impossible, -⟩ | ⟨-, -, inside⟩), -⟩ := references_in_range parsed _ listed
  · cases impossible
  · exact ⟨data, _, parsed, listed, inside⟩

/-- Not all references of images that are read are in range. -/
theorem reference_out_of_range : ∃ data image, parse data = .ok image ∧ image.rows .typeRef = 0x2000 ∧
    ∃ r ∈ image.references, r = (.memberRefParent, ⟨.typeRef, 0x1000001⟩) ∧ ¬ image.InRange r := by
  obtain ⟨data, parsed⟩ := @Sample.parse_typesAndMember 0x2000 0x1000001 (by decide) (by decide) (by decide) (by decide)
  have types : (Sample.typesAndMemberImage 0x2000 0x1000001).rows .typeRef = 0x2000 := List.length_replicate
  refine ⟨data, _, parsed, types, _, Sample.member_references 0x2000 0x1000001, rfl, ?_⟩
  rintro (⟨impossible, -⟩ | ⟨-, inside⟩)
  · cases impossible
  · rw [types] at inside
    exact absurd inside (by decide)

end ModuleImage

end CilWeaver
