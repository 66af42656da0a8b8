import CilWeaver.Proofs.Emissions
import CilWeaver.Proofs.WritableSymbols

/-!
Modules that can be written: the streams of both images are made, and lie within the reach of offsets. For any other
module, which limit it exceeds.
-/

namespace CilWeaver

open Code Outcome Step TableRows

namespace Root

theorem length_contents_le (streams : List (String × Bytes)) :
    (contents streams).length ≤ (streams.map fun s => s.2.length + 3).sum := by
  induction streams with
  | nil => exact Nat.le_refl 0
  | cons stream streams ih =>
    have fill : padding 4 stream.2.length ≤ 3 := by
      unfold padding
      omega
    rw [contents_cons, List.length_append, length_padTo, List.map_cons, List.sum_cons]
    omega

end Root

theorem TableStreamBuilder.stream_fails {reason : Error → Prop} {layout : Layout}
    {add : EStateM Error TableStreamBuilder Unit} (ends : Attempt (fun _ => True) reason (add { layout })) :
    FailsWith reason (stream layout add) := by
  unfold stream
  cases added : add.run { layout } with
  | ok _ b => exact .ok b.build
  | error e b =>
    rw [show add { layout } = .error e b from added] at ends
    exact .error ends

theorem TableStreamBuilder.stream_of_ok {layout : Layout} {add : EStateM Error TableStreamBuilder Unit} {b : TableStreamBuilder}
    (run : add { layout } = .ok () b) : stream layout add = .ok b.build := by
  unfold stream
  rw [show add.run { layout } = .ok () b from run]

theorem TableStreamBuilder.ok_of_stream {layout : Layout} {add : EStateM Error TableStreamBuilder Unit} {tables : Bytes}
    (made : stream layout add = .ok tables) : ∃ b, add { layout } = .ok () b ∧ tables = b.build := by
  unfold stream at made
  cases added : add.run { layout } with
  | ok _ b =>
    rw [added] at made
    cases made
    exact ⟨b, added, rfl⟩
  | error e b =>
    rw [added] at made
    cases made

namespace Module

/-- The most bytes of the image of a module. The root, the headers of the streams and what fills the streams up take
    less than the first number. -/
def imageSpace (m : Module) : Nat :=
  1024 + tableSpace (Table.ofModule.map fun t => (t, m.rows t)) + HeapItem.textSpace m.items + HeapItem.literalSpace m.items
    + 16 * HeapItem.guidCount m.items + HeapItem.blobSpace m.items + m.codeSpace
    + m.symbols?.elim 0 fun file => (utf8Bytes file.path).length

/-- The most bytes of the symbol image of a module. -/
def symbolSpace (m : Module) : Nat :=
  1024 + tableSpace [(.document, m.documents.length), (.methodDebugInformation, m.rows .methodDef)]
    + 16 * m.documentGuids.dedup.length + (m.documentSpace + m.pointSpace)

/-- A module that can be written, symbols included. -/
structure Emittable (m : Module) : Prop where
  rows : m.Writable
  version : Root.versionFieldSize m.runtimeVersion ≤ Root.maxVersionSize
  image : m.imageSpace < 2 ^ 32
  symbols : m.symbols?.isSome = true → m.WritableSymbols ∧ m.symbolSpace < 2 ^ 32

/-- Which limit of the format a module exceeds, with the defect that tells of it. -/
inductive Overflow (m : Module) : Defect → Prop
  | heap {defect : Defect} : HeapItem.Overflow m.items defect → Overflow m defect
  | column {n : Nat} : m.ColumnOverflow n → Overflow m (.columnOverflow n)
  | version : Root.maxVersionSize < Root.versionFieldSize m.runtimeVersion → Overflow m (.versionTooLong m.runtimeVersion)
  | image {defect : Defect} : defect = .imageTooLarge ∨ defect = .streamTooLarge → 2 ^ 32 ≤ m.imageSpace → Overflow m defect
  | symbols {defect : Defect} : m.symbols?.isSome = true → m.SymbolOverflow defect → Overflow m defect
  | symbolImage {defect : Defect} : m.symbols?.isSome = true → defect = .imageTooLarge ∨ defect = .streamTooLarge →
      2 ^ 32 ≤ m.symbolSpace → Overflow m defect

theorem Emittable.not_overflow {m : Module} (emittable : m.Emittable) (defect : Defect) : ¬ m.Overflow defect := by
  intro overflow
  cases overflow with
  | heap overflow => exact emittable.rows.items.not_overflow _ overflow
  | column overflow => exact emittable.rows.not_columnOverflow _ overflow
  | version long => exact Nat.not_le.mpr long emittable.version
  | image _ large => exact Nat.not_lt.mpr large emittable.image
  | symbols present overflow => exact (emittable.symbols present).1.not_overflow _ overflow
  | symbolImage present _ large => exact Nat.not_lt.mpr large (emittable.symbols present).2

/-- Where the instructions of the methods start. -/
def offsets (m : Module) : List (Option (List Nat)) :=
  m.methodList.map fun method => method.2.body?.map fun b => Code.offsets (promote b.code)

end Module

namespace ModuleStreams

variable {m : Module}

theorem length_padTo_le (data : Bytes) : (padTo 4 data).length ≤ data.length + 3 := by
  rw [length_padTo, padding]
  omega

/-- The layout that a writer answers for the methods. -/
theorem offsets_of_describes {rows : ModuleRows} {d : ModuleDraft} (described : rows.Describes m d) :
    rows.methods.map (·.offsets?) = m.offsets := by
  have same := map_eq_map described.methods (f := fun d => d.body?.map fun b => Code.offsets (promote b.code))
    (g := (·.offsets?)) fun d rows has => by
      have body := has.body
      unfold ModuleWriter.HasBody at body
      cases shape : d.body? with
      | none =>
        simp only [shape] at body
        exact body.2.symm
      | some b =>
        simp only [shape] at body
        exact body.1.symm
  rw [← same, ← ModuleRows.methodList_map_snd, List.map_map]
  rfl

/-- Streams that are no longer than what they may hold. -/
structure Within (streams : ModuleStreams) (m : Module) : Prop where
  tables : streams.tables.length ≤ tableSpace (Table.ofModule.map fun t => (t, m.rows t))
  strings : streams.strings.length ≤ HeapItem.textSpace m.items + 3
  userStrings : streams.userStrings.length ≤ HeapItem.literalSpace m.items + 3
  guids : streams.guids.length ≤ 16 * HeapItem.guidCount m.items
  blobs : streams.blobs.length ≤ HeapItem.blobSpace m.items + 3
  il : streams.il.length ≤ m.codeSpace

theorem within_of_ok {streams : ModuleStreams} (made : ofModule m = .ok streams) :
    streams.offsets = m.offsets ∧ streams.Within m := by
  unfold ofModule at made
  cases run : (ModuleRows.ofModule m).run {} with
  | error e d =>
    rw [run] at made
    cases made
  | ok rows d =>
    rw [run] at made
    have room := ModuleRows.room_of_ok run
    obtain ⟨-, -, describes⟩ := ModuleRows.writes_ofModule m {} rows d ModuleDraft.sound_empty run
    have described := describes d (ModuleDraft.Grows.refl d)
    obtain ⟨tables, stream, same⟩ := Outcome.bind_eq_ok.mp made
    rw [← Outcome.pure_eq_ok.mp same]
    obtain ⟨b, added, rfl⟩ := TableStreamBuilder.ok_of_stream stream
    have space := TableStreamBuilder.length_build_le (ModuleRows.addTo_ok added).2
    rw [described.counts_tables] at space
    have guids : d.guids.build.length = 16 * d.guids.guids.length := GuidHeap.length_flatMap d.guids.guids
    refine ⟨offsets_of_describes described, space, ?_, ?_, ?_, ?_, room.il⟩
    · exact Nat.le_trans (length_padTo_le _) (Nat.add_le_add_right room.strings.length_le 3)
    · exact Nat.le_trans (length_padTo_le _) (Nat.add_le_add_right room.userStrings.length_le 3)
    · rw [guids]
      exact Nat.mul_le_mul_left 16 room.guids.length_le
    · exact Nat.le_trans (length_padTo_le _) (Nat.add_le_add_right room.blobs.length_le 3)

theorem ofModule_fails {reason : Error → Prop}
    (refuses : ∀ {context fault}, m.Refused context fault → reason (.emission context fault))
    (overflows : ∀ {defect}, m.Overflow defect → reason (.malformed defect)) : FailsWith reason (ofModule m) := by
  have ends := ModuleRows.attempt_ofModule refuses fun overflow => overflows (.heap overflow)
  unfold ofModule
  cases run : (ModuleRows.ofModule m).run {} with
  | error e d =>
    rw [run] at ends
    exact .error ends
  | ok rows d =>
    rw [run] at ends
    obtain ⟨-, -, describes⟩ := ModuleRows.writes_ofModule m {} rows d ModuleDraft.sound_empty run
    have described := describes d (ModuleDraft.Grows.refl d)
    have tries := described.tries ends fun overflow => overflows (.column overflow)
    exact FailsWith.bind (TableStreamBuilder.stream_fails (described.attempt_addTo tries)) fun tables => .pure _

theorem headers_le (s : ModuleStreams) (record? : Option CodeViewRecord) :
    ((s.named record?).map fun stream => StreamHeader.diskSize stream.1).sum ≤ 200 := by
  cases record? with
  | none =>
    change ([StreamName.tables, StreamName.strings, StreamName.userStrings, StreamName.guids, StreamName.blobs,
      StreamName.il].map StreamHeader.diskSize).sum ≤ 200
    decide
  | some record =>
    change ([StreamName.tables, StreamName.strings, StreamName.userStrings, StreamName.guids, StreamName.blobs,
      StreamName.il, StreamName.codeView].map StreamHeader.diskSize).sum ≤ 200
    decide

end ModuleStreams

theorem CodeViewRecord.length_build (r : CodeViewRecord) : r.build.length = 29 + (utf8Bytes r.path).length := by
  simp [build, u32Bytes, r.id.length_eq]
  omega

theorem PdbStream.length_build (s : PdbStream) : s.build.length = 32 + 4 * s.rows.length := by
  have numbers : (s.rows.flatMap fun row => u32Bytes row.2).length = 4 * s.rows.length :=
    length_flatMap_of_size (fun _ => length_leBytes _ _) s.rows
  change (s.id.bytes ++ u32Bytes s.entryPoint.value ++ u64Bytes s.mask ++ s.rows.flatMap fun row => u32Bytes row.2).length = _
  rw [List.length_append, numbers, List.length_append, List.length_append, s.id.length_eq, u32Bytes, u64Bytes, length_leBytes,
    length_leBytes]

namespace Module

variable {m : Module}

theorem image_fails {reason : Error → Prop} {streams : ModuleStreams} (within : streams.Within m)
    {record? : Option CodeViewRecord} (same : record?.map (·.path) = m.symbols?.map (·.path))
    (overflows : ∀ {defect}, m.Overflow defect → reason (.malformed defect)) :
    FailsWith reason (streams.image m.runtimeVersion record?) := by
  have headers := streams.headers_le record?
  have record : ((record?.toList.map fun record => (StreamName.codeView, record.build)).map fun s => s.2.length + 3).sum ≤
      32 + m.symbols?.elim 0 fun file => (utf8Bytes file.path).length := by
    cases record? with
    | none => exact Nat.zero_le _
    | some record =>
      cases shape : m.symbols? with
      | none =>
        rw [shape] at same
        cases same
      | some file =>
        rw [shape, Option.map_some, Option.map_some, Option.some.injEq] at same
        have size := record.length_build
        rw [same] at size
        simp only [Option.toList_some, List.map_cons, List.map_nil, List.sum_cons, List.sum_nil, Option.elim_some, size]
        omega
  have contents : (Root.contents (streams.named record?)).length ≤ streams.tables.length + streams.strings.length
      + streams.userStrings.length + streams.guids.length + streams.blobs.length + streams.il.length + 50
      + m.symbols?.elim 0 fun file => (utf8Bytes file.path).length := by
    apply Nat.le_trans (Root.length_contents_le _)
    unfold ModuleStreams.named
    simp only [List.map_append, List.map_cons, List.map_nil, List.sum_append, List.sum_cons, List.sum_nil]
    omega
  obtain ⟨tables, strings, userStrings, guids, blobs, il⟩ := within
  intro e failed
  obtain ⟨rfl, long⟩ | ⟨short, kind, large⟩ := Root.build_fails m.runtimeVersion (streams.named record?) e failed
  · exact overflows (.version long)
  · have limit : Root.maxVersionSize = 255 := rfl
    have space : 2 ^ 32 ≤ m.imageSpace := by
      unfold Root.rootSize at large
      unfold imageSpace
      omega
    rcases kind with rfl | rfl
    · exact overflows (.image (.inl rfl) space)
    · exact overflows (.image (.inr rfl) space)

/-- The points of the bodies that were written are in documents of the module. -/
theorem placed_of_ok {streams : ModuleStreams} (made : ModuleStreams.ofModule m = .ok streams) :
    ∀ method ∈ m.methodList, ∀ b, method.2.body? = some b → b.Placed m.documents.length := by
  intro method member b own
  obtain ⟨rows, d, builder, written, -⟩ := ModuleStreams.ofModule_eq_ok made
  have listed : method.2 ∈ m.types.flatMap (·.methods) := by
    rw [← ModuleRows.methodList_map_snd]
    exact List.mem_map_of_mem member
  obtain ⟨methodRows, -, has⟩ := forall₂_of_mem written.described.methods listed
  have body := has.body
  unfold ModuleWriter.HasBody at body
  rw [own] at body
  exact body.2.1.placed

end Module

namespace SymbolStreams

variable {m : Module} {symbols : SymbolStreams}

/-- Streams that are no longer than what they may hold. -/
structure Within (symbols : SymbolStreams) (m : Module) : Prop where
  rows : symbols.rows.length ≤ 10
  tables : symbols.tables.length ≤ tableSpace [(.document, m.documents.length), (.methodDebugInformation, m.rows .methodDef)]
  guids : symbols.guids.length ≤ 16 * m.documentGuids.dedup.length
  blobs : symbols.blobs.length ≤ m.documentSpace + m.pointSpace + 3

theorem within_of_ok (made : ofModule m m.offsets = .ok symbols) : symbols.Within m := by
  unfold ofModule at made
  cases run : (SymbolWriter.rows m m.offsets).run {} with
  | error e d =>
    rw [run] at made
    cases made
  | ok rows d =>
    rw [run] at made
    have room := SymbolWriter.room_of_ok run
    obtain ⟨-, -, describes⟩ := SymbolWriter.writes_rows m m.offsets {} rows d SymbolDraft.sound_empty run
    obtain ⟨debugs, described⟩ := describes d (SymbolDraft.Grows.refl d)
    obtain ⟨tables, stream, same⟩ := Outcome.bind_eq_ok.mp made
    rw [← Outcome.pure_eq_ok.mp same]
    obtain ⟨b, added, rfl⟩ := TableStreamBuilder.ok_of_stream stream
    have space := TableStreamBuilder.length_build_le (added_ok rows added).2
    have methods : rows.2.length = m.rows .methodDef := by
      rw [← described.methods.length_eq, ← described.stored.length_eq]
      unfold Module.offsets
      rw [SymbolWriter.zip_methodList, List.length_map, Module.length_methodList]
    rw [counts_tablesOf, methods, ← described.documents.length_eq] at space
    have guids : d.guids.build.length = 16 * d.guids.guids.length := GuidHeap.length_flatMap d.guids.guids
    refine ⟨Nat.le_trans (Nat.le_of_eq (List.length_map _)) (List.length_filter_le _ _), space, ?_, ?_⟩
    · rw [guids]
      exact Nat.mul_le_mul_left 16 room.guids.length_le
    · exact Nat.le_trans (ModuleStreams.length_padTo_le _) (Nat.add_le_add_right room.blobs.bound 3)

theorem ofModule_fails {reason : Error → Prop}
    (placed : ∀ method ∈ m.methodList, ∀ b, method.2.body? = some b → b.Placed m.documents.length)
    (points : ∀ t d b e, (t, d) ∈ m.methodList → d.body? = some b → b.encodedPoints = .error e →
      reason (SymbolWriter.inMethod (t.methodText d.name) e))
    (overflows : ∀ {defect}, m.SymbolOverflow defect → reason (.malformed defect)) :
    FailsWith reason (ofModule m m.offsets) := by
  have ends := SymbolWriter.attempt_rows points overflows
  unfold ofModule
  cases run : (SymbolWriter.rows m m.offsets).run {} with
  | error e d =>
    unfold Module.offsets at run
    rw [run] at ends
    exact .error ends
  | ok rows d =>
    obtain ⟨-, -, describes⟩ := SymbolWriter.writes_rows m m.offsets {} rows d SymbolDraft.sound_empty run
    obtain ⟨debugs, described⟩ := describes d (SymbolDraft.Grows.refl d)
    have added := attempt_stream described (SymbolWriter.room_of_ok run) placed overflows
    exact FailsWith.bind (TableStreamBuilder.stream_fails added) fun tables => .pure _

theorem image_fails {reason : Error → Prop} (within : symbols.Within m) (present : m.symbols?.isSome = true)
    (overflows : ∀ {defect}, m.Overflow defect → reason (.malformed defect)) (id : ImageId) :
    FailsWith reason (symbols.image id) := by
  have headers : ((symbols.named id).map fun stream => StreamHeader.diskSize stream.1).sum ≤ 200 := by
    change ([StreamName.pdb, StreamName.tables, StreamName.guids, StreamName.blobs].map StreamHeader.diskSize).sum ≤ 200
    decide
  have contents : (Root.contents (symbols.named id)).length ≤ 44 + 4 * symbols.rows.length + symbols.tables.length
      + symbols.guids.length + symbols.blobs.length := by
    apply Nat.le_trans (Root.length_contents_le _)
    unfold named
    simp only [List.map_cons, List.map_nil, List.sum_cons, List.sum_nil, PdbStream.length_build]
    omega
  have short : Root.versionFieldSize version = 12 := by decide
  obtain ⟨rows, tables, guids, blobs⟩ := within
  intro e failed
  obtain ⟨rfl, long⟩ | ⟨-, kind, large⟩ := Root.build_fails version (symbols.named id) e failed
  · rw [short] at long
    exact absurd long (by decide)
  · have space : 2 ^ 32 ≤ m.symbolSpace := by
      unfold Root.rootSize at large
      unfold Module.symbolSpace
      omega
    rcases kind with rfl | rfl
    · exact overflows (.symbolImage present (.inl rfl) space)
    · exact overflows (.symbolImage present (.inr rfl) space)

end SymbolStreams

namespace Module

variable {m : Module}

/-- How writing a module fails: an element is refused, points have no stored form, or a limit is exceeded. -/
theorem emit_fails {reason : Error → Prop}
    (refuses : ∀ {context fault}, m.Refused context fault → reason (.emission context fault))
    (points : m.symbols?.isSome = true → ∀ t d b e, (t, d) ∈ m.methodList → d.body? = some b → b.encodedPoints = .error e →
      reason (SymbolWriter.inMethod (t.methodText d.name) e))
    (overflows : ∀ {defect}, m.Overflow defect → reason (.malformed defect)) (digest : Bytes → ImageId) :
    FailsWith reason (m.emit digest) := by
  unfold emit
  refine (ModuleStreams.ofModule_fails refuses overflows).bind_of fun streams made => ?_
  obtain ⟨offsets, within⟩ := ModuleStreams.within_of_ok made
  cases shape : m.symbols? with
  | none => exact (image_fails within (by rw [shape]; rfl) overflows).bind fun code => .pure _
  | some file =>
    have present : m.symbols?.isSome = true := by
      rw [shape]
      rfl
    dsimp only
    rw [offsets]
    have symbols := SymbolStreams.ofModule_fails (placed_of_ok made) (points present) fun overflow =>
      overflows (.symbols present overflow)
    refine symbols.bind_of fun symbols madeSymbols => ?_
    have images (id : ImageId) : FailsWith reason (m.images file streams symbols id) :=
      (image_fails within (by rw [shape]; rfl) overflows).bind fun code =>
        (SymbolStreams.image_fails (SymbolStreams.within_of_ok madeSymbols) present overflows id).bind fun data => .pure _
    exact (images .zero).bind fun blank => images _

/-- A module that can be written is written, whatever the digest is. -/
theorem exists_emit (emittable : m.Emittable) (digest : Bytes → ImageId) : ∃ e, m.emit digest = .ok e := by
  refine (emit_fails (fun refused => emittable.rows.not_refused _ _ refused) (fun present t d b e member own failed => ?_)
    (fun overflow => emittable.not_overflow _ overflow) digest).exists_ok
  obtain ⟨-, blob, encoded, -⟩ := (emittable.symbols present).1.points _ member b own
  rw [failed] at encoded
  cases encoded

end Module

end CilWeaver
