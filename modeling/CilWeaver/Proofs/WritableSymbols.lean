import CilWeaver.Proofs.SymbolImages
import CilWeaver.Proofs.WritableTables

/-!
Symbols that can be written, and why others cannot. What the name of a document is stored as depends on the indices of
its parts, so that the blobs of a symbol image have a cost, whether they share an entry or not.
-/

namespace CilWeaver

open Outcome Step TableRows

namespace BlobHeapBuilder

/-- A heap that may grow by `room`. -/
structure Room (limit room : Nat) (b : BlobHeapBuilder) : Prop where
  sound : b.Sound
  bound : b.data.length + room ≤ limit

variable {limit : Nat}

theorem Room.mono {room : Nat} {b : BlobHeapBuilder} (h : b.Room limit room) {less : Nat} (le : less ≤ room) : b.Room limit less :=
  ⟨h.sound, Nat.le_trans (Nat.add_le_add_left le _) h.bound⟩

theorem attempts_add {reason : Error → Prop} {blob : Bytes} {cost : Nat} (size : blobSize blob ≤ cost)
    (long : 2 ^ 29 ≤ blob.length → blob.length < limit → reason (.malformed (.compressedTooLarge blob.length)))
    (full : 2 ^ 32 < limit → reason (.malformed (.heapTooLarge .blobs))) :
    Attempts (Room limit) reason cost (add blob) := by
  intro rest b room
  have bound := room.bound
  have own : blobSize blob = blob.length + 4 := rfl
  have added : Attempt (fun b' : BlobHeapBuilder => b'.data.length + rest ≤ limit) reason (add blob b) := by
    refine attempt_add (by omega) (fun _ _ length few => ?_) (fun large => long large (by omega))
      fun _ far => full (by omega)
    rw [List.length_append, List.length_append]
    omega
  cases run : add blob b with
  | ok index b' =>
    rw [run] at added
    exact ⟨(add_ok room.sound run).1, added⟩
  | error e b' =>
    rw [run] at added
    exact added

theorem add_lt {blob : Bytes} {rest rest' index : Nat} {b b' : BlobHeapBuilder} (room : b.Room limit rest)
    (run : add blob b = .ok index b') (left : b'.Room limit rest') : index < limit := by
  have inside := (add_ok room.sound run).2.2.lt
  have bound := left.bound
  omega

end BlobHeapBuilder

namespace DocumentName

open BlobHeapBuilder

/-- The parts that a name is stored in. -/
def parts (name : List Char) : List (List Char) :=
  match separator? name with
  | some separator => splitParts separator name
  | none => [name]

def partSpace (part : List Char) : Nat := blobSize (Utf8.encode part)

/-- The most bytes that a name takes: its parts, and four bytes for the index of each. -/
def space (name : String) : Nat :=
  ((parts name.toList).map partSpace).sum + (1 + 4 * (parts name.toList).length + 4)

variable {limit : Nat}

/-- Why documents are not stored in a heap of at most `limit` bytes: an index or a length in it is too large to be
    compressed, or the heap is too large for its indices. -/
inductive Overflow (limit : Nat) : Defect → Prop
  | number {n : Nat} : 2 ^ 29 ≤ n → n < limit → Overflow limit (.compressedTooLarge n)
  | full : 2 ^ 32 < limit → Overflow limit (.heapTooLarge .blobs)

section

variable {reason : Error → Prop} (overflows : ∀ {defect}, Overflow limit defect → reason (.malformed defect))
include overflows

theorem attempts_addBlob {blob : Bytes} {cost : Nat} (size : blobSize blob ≤ cost) :
    Attempts (Room limit) reason cost (BlobHeapBuilder.add blob) :=
  attempts_add size (fun large inside => overflows (.number large inside)) fun far => overflows (.full far)

/-- The index of a part has to be compressed. -/
theorem attempts_addPart (part : List Char) : Attempts (Room limit) reason (partSpace part) (addPart part) := by
  unfold addPart
  rw [← Nat.add_zero (partSpace part)]
  refine (attempts_addBlob overflows (Nat.le_refl _)).bind_of (P := (· < limit))
    (fun _ _ _ _ _ room run left => add_lt room run left) fun index inside => ?_
  by_cases large : 2 ^ 29 ≤ index
  · rw [compressed_of_le large]
    exact .throw (overflows (.number large inside))
  · obtain ⟨bytes, written⟩ := exists_compressed (Nat.lt_of_not_le large)
    rw [written]
    exact .pure bytes

omit overflows in
theorem length_addPart_le {part : List Char} {b b' : BlobHeapBuilder} {index : Bytes} (run : addPart part b = .ok index b') :
    index.length ≤ 4 := by
  unfold addPart at run
  obtain ⟨number, middle, -, run⟩ := bind_eq_ok.mp run
  cases written : compressed number with
  | ok bytes =>
    rw [written] at run
    obtain ⟨rfl, -⟩ := pure_eq_ok.mp run
    exact length_compressed_le written
  | error e =>
    rw [written] at run
    exact absurd run throw_ne_ok

omit overflows in
theorem length_addParts_le {parts : List (List Char)} {b b' : BlobHeapBuilder} {indices : List Bytes}
    (run : parts.mapM addPart b = .ok indices b') : indices.flatten.length ≤ 4 * parts.length := by
  induction parts generalizing b indices with
  | nil =>
    obtain ⟨rfl, -⟩ := pure_eq_ok.mp run
    exact Nat.le_refl 0
  | cons part parts ih =>
    rw [List.mapM_cons] at run
    obtain ⟨index, middle, first, run⟩ := bind_eq_ok.mp run
    obtain ⟨others, last, rest, run⟩ := bind_eq_ok.mp run
    obtain ⟨rfl, rfl⟩ := pure_eq_ok.mp run
    have short := length_addPart_le first
    have few := ih rest
    rw [List.flatten_cons, List.length_append, List.length_cons]
    omega

theorem attempts_addName (name : String) : Attempts (Room limit) reason (space name) (add name) := by
  have last (count : Nat) {indices : Bytes} (few : indices.length ≤ 4 * count) (first : UInt8) :
      Attempts (Room limit) reason (1 + 4 * count + 4) (BlobHeapBuilder.add (first :: indices)) := by
    refine attempts_addBlob overflows ?_
    rw [blobSize, List.length_cons]
    omega
  unfold add space parts
  dsimp only
  cases separator? name.toList with
  | some separator =>
    dsimp only
    exact (Attempts.mapM fun part _ => attempts_addPart overflows part).bind_of
      (fun _ _ _ _ _ _ run _ => length_addParts_le run) fun indices few => last _ few _
  | none =>
    dsimp only
    rw [List.map_singleton, List.sum_singleton]
    exact (attempts_addPart overflows name.toList).bind_of (fun _ _ _ _ _ _ run _ => length_addPart_le run)
      fun index few => last 1 few 0

end

end DocumentName

/-! Drafts -/

/-- The most bytes that a document takes among the blobs. -/
def Document.space (document : Document) : Nat := DocumentName.space document.name + blobSize document.hash

def Document.guids (document : Document) : List Guid := [document.hashAlgorithm, document.language]

namespace MethodBody

open Code

/-- The source points of a body as they are stored. -/
def encodedPoints (b : MethodBody) : Result Bytes :=
  match b.symbols? with
  | none => .ok []
  | some symbols =>
    if symbols.points.isEmpty then .ok []
    else
      let stored := SymbolWriter.storedPoints (offsets (promote b.code)) symbols
      stored.encode (stored.document?.getD 0)

def pointSpace (b : MethodBody) : Nat := b.encodedPoints.toOption.elim 0 blobSize

end MethodBody

namespace Module

def documentSpace (m : Module) : Nat := 1 + (m.documents.map Document.space).sum

def pointSpace (m : Module) : Nat := (m.methodList.map fun method => method.2.body?.elim 0 MethodBody.pointSpace).sum

def documentGuids (m : Module) : List Guid := m.documents.flatMap Document.guids

/-- What is asked of a module before its symbols are written. -/
structure WritableSymbols (m : Module) : Prop where
  points : ∀ method ∈ m.methodList, ∀ b, method.2.body? = some b → b.Placed m.documents.length ∧
    ∃ blob, b.encodedPoints = .ok blob ∧ blob.length < 2 ^ 29
  documents : m.documentSpace ≤ 2 ^ 29
  blobs : m.documentSpace + m.pointSpace ≤ 2 ^ 32
  guids : m.documentGuids.dedup.length < 2 ^ 32

/-- Why the documents and points of a module do not fit the heaps and tables of a symbol image. -/
inductive SymbolOverflow (m : Module) : Defect → Prop
  | document {defect : Defect} : DocumentName.Overflow m.documentSpace defect → SymbolOverflow m defect
  | points {t : TypeDef} {d : MethodDef} {b : MethodBody} {blob : Bytes} : (t, d) ∈ m.methodList → d.body? = some b →
      b.encodedPoints = .ok blob → 2 ^ 29 ≤ blob.length → SymbolOverflow m (.compressedTooLarge blob.length)
  | blobs : 2 ^ 32 < m.documentSpace + m.pointSpace → SymbolOverflow m (.heapTooLarge .blobs)
  | column {n : Nat} : 2 ^ 32 ≤ m.documentGuids.dedup.length ∨ 2 ^ 32 < m.documentSpace + m.pointSpace →
      SymbolOverflow m (.columnOverflow n)

theorem WritableSymbols.not_overflow {m : Module} (writable : m.WritableSymbols) (defect : Defect) :
    ¬ m.SymbolOverflow defect := by
  have documents := writable.documents
  have blobs := writable.blobs
  have guids := writable.guids
  intro overflow
  cases overflow with
  | document overflow =>
    cases overflow with
    | number large inside => omega
    | full far => omega
  | points member own encoded long =>
    obtain ⟨-, blob, encoded', short⟩ := writable.points _ member _ own
    cases encoded.symm.trans encoded'
    omega
  | blobs far => omega
  | column far => omega

end Module

namespace SymbolDraft

structure Room (guids : List Guid) (limit room : Nat) (d : SymbolDraft) : Prop where
  guids : d.guids.Within guids
  blobs : d.blobs.Room limit room

end SymbolDraft

namespace SymbolWriter

open SymbolDraft Code

variable {guids : List Guid} {limit : Nat}

variable {reason : Error → Prop}

theorem attempts_onBlobs {α : Type} {cost : Nat} {action : EStateM Error BlobHeapBuilder α}
    (attempts : Attempts (BlobHeapBuilder.Room limit) reason cost action) :
    Attempts (Room guids limit) reason cost (onBlobs action) := by
  intro rest d room
  have ends := attempts rest d.blobs room.blobs
  unfold onBlobs
  cases run : action d.blobs with
  | ok a blobs =>
    rw [run] at ends
    exact ⟨room.guids, ends⟩
  | error e blobs =>
    rw [run] at ends
    exact ends

theorem attempts_addGuid {guid : Guid} (member : guid ∈ guids) : Attempts (Room guids limit) reason 0 (addGuid guid) := by
  intro rest d room
  rw [Nat.zero_add] at room
  have ends : Attempt _ reason (GuidHeapBuilder.add guid d.guids) := GuidHeapBuilder.add_within room.guids member
  unfold addGuid
  cases run : GuidHeapBuilder.add guid d.guids with
  | ok index found =>
    rw [run] at ends
    exact ⟨ends, room.blobs⟩
  | error e found =>
    rw [run] at ends
    exact ends

theorem attempts_documentRow (overflows : ∀ {defect}, DocumentName.Overflow limit defect → reason (.malformed defect))
    {document : Document} (given : document.guids ⊆ guids) :
    Attempts (Room guids limit) reason document.space (documentRow document) := by
  unfold Document.guids at given
  simp only [List.cons_subset, List.nil_subset, and_true] at given
  have hash : Attempts (Room guids limit) reason _ (onBlobs (BlobHeapBuilder.add document.hash)) :=
    attempts_onBlobs (DocumentName.attempts_addBlob overflows (Nat.le_refl _))
  unfold documentRow
  apply (attempts_onBlobs (DocumentName.attempts_addName overflows document.name)).bind
  intro name
  apply (attempts_addGuid given.1).free_bind
  intro hashAlgorithm
  exact hash.bind fun hash => (attempts_addGuid given.2).map _

theorem attempts_debugRow {method : String} {body? : Option MethodBody}
    (fails : ∀ b, body? = some b → ∀ e, b.encodedPoints = .error e → reason (inMethod method e))
    (long : ∀ b, body? = some b → ∀ blob, b.encodedPoints = .ok blob → 2 ^ 29 ≤ blob.length →
      reason (.malformed (.compressedTooLarge blob.length)))
    (full : 2 ^ 32 < limit → reason (.malformed (.heapTooLarge .blobs))) :
    Attempts (Room guids limit) reason (body?.elim 0 MethodBody.pointSpace)
      (debugRow method body? (body?.map fun b => offsets (promote b.code))) := by
  have empty : ∀ cost, Attempts (Room guids limit) reason cost (pure ⟨0, 0⟩ : SymbolWriter MethodDebugRow) :=
    fun cost rest d room => ⟨room.guids, room.blobs.mono (Nat.le_add_left _ _)⟩
  cases body? with
  | none => exact empty 0
  | some b =>
    have fails := fails b rfl
    have long := long b rfl
    change Attempts (Room guids limit) reason b.pointSpace _
    unfold MethodBody.pointSpace
    unfold MethodBody.encodedPoints at fails long ⊢
    unfold debugRow
    rw [Option.bind_some, Option.map_some]
    cases shape : b.symbols? with
    | none => exact empty _
    | some symbols =>
      simp only [shape] at fails long ⊢
      by_cases none : symbols.points.isEmpty = true
      · rw [if_pos none, if_pos none]
        exact empty _
      · rw [if_neg none] at fails long ⊢
        rw [if_neg none]
        cases encoded : (storedPoints (offsets (promote b.code)) symbols).encode
          ((storedPoints (offsets (promote b.code)) symbols).document?.getD 0) with
        | error e => exact .throw (fails e encoded)
        | ok blob =>
          exact (attempts_onBlobs (BlobHeapBuilder.attempts_add (Nat.le_refl _) (fun large _ => long blob encoded large)
            full)).map _

theorem zip_methodList (m : Module) (g : TypeDef × MethodDef → Option (List Nat)) :
    m.methodList.zip (m.methodList.map g) = m.methodList.map fun method => (method, g method) := by
  have both : (m.methodList.map id).zip (m.methodList.map g) = m.methodList.map fun method => (id method, g method) :=
    List.zip_map'
  rwa [List.map_id] at both

/-- The rows of documents and methods are written, the names of documents as the first blobs, unless some points have no
    stored form or the heaps overflow. -/
theorem attempt_rows {m : Module} {reason : Error → Prop}
    (fails : ∀ t d b e, (t, d) ∈ m.methodList → d.body? = some b → b.encodedPoints = .error e →
      reason (inMethod (t.methodText d.name) e))
    (overflows : ∀ {defect}, m.SymbolOverflow defect → reason (.malformed defect)) :
    Attempt (Room m.documentGuids (m.documentSpace + m.pointSpace) 0) reason ((SymbolWriter.rows m
      (m.methodList.map fun method => method.2.body?.map fun b => offsets (promote b.code))).run {}) := by
  have start : Room m.documentGuids m.documentSpace (m.documents.map Document.space).sum {} :=
    ⟨GuidHeapBuilder.within_empty _, BlobHeapBuilder.sound_empty, Nat.le_refl _⟩
  have first := (Attempts.mapM fun document member => attempts_documentRow
    (fun overflow => overflows (.document overflow)) (subset_of_flatMap (List.Subset.refl _) member)) 0 {} start
  have methods : Attempts (Room m.documentGuids (m.documentSpace + m.pointSpace)) reason _ _ :=
    Attempts.mapM fun (method : TypeDef × MethodDef) member => attempts_debugRow
      (fun b own e failed => fails method.1 method.2 b e member own failed)
      (fun b own blob encoded long => overflows (.points member own encoded long)) fun far => overflows (.blobs far)
  unfold SymbolWriter.rows
  rw [zip_methodList, List.mapM_map]
  change Attempt _ _ ((m.documents.mapM documentRow >>= _) {})
  rw [bind_apply]
  cases run : m.documents.mapM documentRow {} with
  | error e d =>
    rw [run] at first
    exact first
  | ok documents d =>
    rw [run] at first
    have more : Room m.documentGuids (m.documentSpace + m.pointSpace) (m.pointSpace + 0) d :=
      ⟨first.guids, first.blobs.sound, Nat.add_le_add_right first.blobs.bound m.pointSpace⟩
    exact (methods.map _) 0 d more

/-- There was room for what was written. -/
theorem room_of_ok {m : Module} {rows : List DocumentRow × List MethodDebugRow} {d : SymbolDraft}
    (run : (SymbolWriter.rows m (m.methodList.map fun method => method.2.body?.map fun b => offsets (promote b.code))).run {} =
      .ok rows d) : Room m.documentGuids (m.documentSpace + m.pointSpace) 0 d := by
  have ends : Attempt (Room m.documentGuids (m.documentSpace + m.pointSpace) 0) (fun _ => True) _ :=
    attempt_rows (fun _ _ _ _ _ _ _ => trivial) fun _ => trivial
  rwa [run] at ends

/-- The document in the row of a method is none or one of the module. -/
theorem document_le {m : Module} {body? : Option MethodBody} {debug : MethodDebug}
    (debugs : SymbolDraft.Debugs body? (body?.map fun b => offsets (promote b.code)) debug)
    (placed : ∀ b, body? = some b → b.Placed m.documents.length) : debug.document ≤ m.documents.length := by
  unfold SymbolDraft.Debugs at debugs
  cases body? with
  | none =>
    subst debugs
    exact Nat.zero_le _
  | some b =>
    rw [Option.bind_some, Option.map_some] at debugs
    cases shape : b.symbols? with
    | none =>
      simp only [shape] at debugs
      subst debugs
      exact Nat.zero_le _
    | some symbols =>
      simp only [shape] at debugs
      split at debugs
      · subst debugs
        exact Nat.zero_le _
      · rw [debugs.1]
        cases found : (storedPoints (offsets (promote b.code)) symbols).document? with
        | none => exact Nat.zero_le _
        | some document =>
          obtain ⟨stored, member, same⟩ := SequencePoints.mem_of_document? found
          obtain ⟨p, own, rfl⟩ := List.mem_map.mp member
          have named := MethodBody.names_of_checkPoints ((placed b rfl).points symbols shape) p own
          have bound := named.document.2
          rw [Option.getD_some, ← same]
          exact bound

theorem document_lt {body? : Option MethodBody} {offsets? : Option (List Nat)} {debug : MethodDebug}
    (debugs : SymbolDraft.Debugs body? offsets? debug) : debug.document < 2 ^ 32 := by
  unfold SymbolDraft.Debugs at debugs
  split at debugs
  · rename_i symbols offsets shape
    by_cases none : symbols.points.isEmpty = true
    · rw [if_pos none] at debugs
      rw [debugs]
      decide
    · rw [if_neg none] at debugs
      rw [debugs.1]
      exact UInt32.toNat_lt _
  · rw [debugs]
    decide

theorem row_document_lt {m : Module} {offsets : List (Option (List Nat))} {rows : List DocumentRow × List MethodDebugRow}
    {debugs : List MethodDebug} {d : SymbolDraft} (described : Describes m offsets rows d debugs) :
    ∀ row ∈ rows.2, row.document < 2 ^ 32 := by
  intro row member
  obtain ⟨debug, inside, has⟩ := forall₂_of_mem described.methods.flip member
  obtain ⟨method, -, debugs⟩ := forall₂_of_mem described.stored.flip inside
  rw [has.document]
  exact document_lt debugs

/-- The document in a row is none or one of the module. -/
theorem row_document_le {m : Module} {rows : List DocumentRow × List MethodDebugRow} {debugs : List MethodDebug} {d : SymbolDraft}
    (described : Describes m (m.methodList.map fun method => method.2.body?.map fun b => offsets (promote b.code)) rows d debugs)
    (placed : ∀ method ∈ m.methodList, ∀ b, method.2.body? = some b → b.Placed m.documents.length) :
    ∀ row ∈ rows.2, row.document ≤ rows.1.length := by
  intro row member
  obtain ⟨debug, inside, has⟩ := forall₂_of_mem described.methods.flip member
  obtain ⟨method, listed, debugs⟩ := forall₂_of_mem described.stored.flip inside
  rw [zip_methodList] at listed
  obtain ⟨own, member, rfl⟩ := List.mem_map.mp listed
  rw [has.document, ← described.documents.length_eq]
  exact document_le debugs fun b shape => placed own member b shape

end SymbolWriter

namespace SymbolStreams

open SymbolDraft Code

variable {m : Module} {rows : List DocumentRow × List MethodDebugRow} {debugs : List MethodDebug} {d : SymbolDraft}

/-- The layout of the tables of some symbols. -/
def layout (rows : List DocumentRow × List MethodDebugRow) (d : SymbolDraft) : Layout :=
  .ofCounts [(Table.document, rows.1.length), (.methodDebugInformation, rows.2.length)]
    (heapSizes false d.guids.isLarge d.blobs.isLarge)

theorem wide_layout (rows : List DocumentRow × List MethodDebugRow) (d : SymbolDraft) :
    (layout rows d).wideGuids = d.guids.isLarge ∧ (layout rows d).wideBlobs = d.blobs.isLarge := by
  have all : ∀ guids blobs, (heapSizes false guids blobs &&& Layout.largeGuids != 0) = guids ∧
      (heapSizes false guids blobs &&& Layout.largeBlobs != 0) = blobs := by decide
  exact all _ _

theorem takes_blob (small : d.blobs.data.length ≤ 2 ^ 32) {index : Nat} {blob : Bytes} (has : d.HasBlob index blob) :
    ∃ bytes, (layout rows d).writeColumn .blob index = .ok bytes := by
  have inside := has.lt
  refine Layout.exists_column (fun narrow => ?_) (by omega)
  rw [(wide_layout rows d).2, BlobHeapBuilder.isLarge, decide_eq_false_iff_not] at narrow
  omega

theorem takes_guid (few : d.guids.guids.length < 2 ^ 32) {index : Nat} {guid : Guid} (has : d.HasGuid index guid) :
    ∃ bytes, (layout rows d).writeColumn .guid index = .ok bytes := by
  have inside := has.le
  refine Layout.exists_column (fun narrow => ?_) (by omega)
  rw [(wide_layout rows d).1, GuidHeapBuilder.isLarge, decide_eq_false_iff_not] at narrow
  omega

theorem takes_document {document : Nat} (bound : document ≤ rows.1.length) (small : document < 2 ^ 32) :
    ∃ bytes, (layout rows d).writeColumn (.row .document) document = .ok bytes := by
  refine Layout.exists_column (fun narrow => ?_) small
  have count : (layout rows d).rows .document = rows.1.length := rfl
  rw [Layout.wideRows, decide_eq_false_iff_not, count] at narrow
  omega

/-- The rows of documents and methods go into one stream, unless one of their numbers does not fit its column. -/
theorem attempt_added {reason : Error → Prop} {offsets : List (Option (List Nat))}
    (described : SymbolWriter.Describes m offsets rows d debugs)
    (blob : ∀ {index blob}, d.HasBlob index blob → FailsWith reason ((layout rows d).writeColumn .blob index))
    (guid : ∀ {index guid}, d.HasGuid index guid → FailsWith reason ((layout rows d).writeColumn .guid index))
    (listed : ∀ row ∈ rows.2, row.document ≤ rows.1.length) :
    Attempt (fun _ => True) reason
      ((do TableStreamBuilder.add rows.1; TableStreamBuilder.add rows.2 : EStateM Error TableStreamBuilder Unit)
        { layout := layout rows d }) := by
  have tries : ∀ table ∈ tablesOf rows, ∀ row ∈ table.2, (layout rows d).Tries reason table.1.columns row := by
    unfold tablesOf
    simp only [List.forall_mem_cons, List.not_mem_nil, false_imp_iff, implies_true, and_true]
    constructor
    · intro values member
      obtain ⟨row, inside, rfl⟩ := List.mem_map.mp member
      obtain ⟨document, has⟩ := ModuleRows.exists_of_mem_right described.documents inside
      obtain ⟨name, holds, -⟩ := has.name
      exact ⟨blob holds, guid has.hashAlgorithm, blob has.hash, guid has.language, trivial⟩
    · intro values member
      obtain ⟨row, inside, rfl⟩ := List.mem_map.mp member
      obtain ⟨debug, has⟩ := ModuleRows.exists_of_mem_right described.methods inside
      have document := takes_document (d := d) (listed row inside) (SymbolWriter.row_document_lt described row inside)
      exact ⟨Layout.fails_of_exists document, blob has.points, trivial⟩
  have start : TableStreamBuilder.Before (layout rows d) 0 { layout := layout rows d } := ⟨rfl, fun _ none => by cases none⟩
  have ascending : (tablesOf rows).Pairwise fun d e => d.1.number < e.1.number := by
    have numbers : Table.document.number < Table.methodDebugInformation.number := by decide
    exact .cons (fun e member => by rw [List.mem_singleton.mp member]; exact numbers) (List.pairwise_singleton _ _)
  have counted : ∀ table ∈ tablesOf rows, (layout rows d).rows table.1 = table.count := by
    unfold tablesOf
    simp only [List.forall_mem_cons, List.not_mem_nil, false_imp_iff, implies_true, and_true]
    exact ⟨(List.length_map _).symm, (List.length_map _).symm⟩
  rw [added_eq]
  exact TableStreamBuilder.attempt_addAll start ascending (fun _ _ => Nat.zero_le _) counted tries

/-- The rows of documents and methods go into one stream if their heaps are within the reach of indices. -/
theorem exists_added {offsets : List (Option (List Nat))} (described : SymbolWriter.Describes m offsets rows d debugs)
    (blobs : d.blobs.data.length ≤ 2 ^ 32) (guids : d.guids.guids.length < 2 ^ 32)
    (listed : ∀ row ∈ rows.2, row.document ≤ rows.1.length) :
    ∃ b, (do TableStreamBuilder.add rows.1; TableStreamBuilder.add rows.2 : EStateM Error TableStreamBuilder Unit)
      { layout := layout rows d } = .ok () b := by
  have ends : Attempt _ (fun _ => False) _ := attempt_added described
    (fun has => Layout.fails_of_exists (takes_blob blobs has)) (fun has => Layout.fails_of_exists (takes_guid guids has))
    listed
  obtain ⟨_, b, run, -⟩ := ends.exists_ok fun _ => id
  exact ⟨b, run⟩

/-- The tables of symbols whose rows were written go into one stream, unless the heaps overflow. -/
theorem attempt_stream {reason : Error → Prop}
    (described : SymbolWriter.Describes m (m.methodList.map fun method => method.2.body?.map fun b => offsets (promote b.code))
      rows d debugs) (room : Room m.documentGuids (m.documentSpace + m.pointSpace) 0 d)
    (placed : ∀ method ∈ m.methodList, ∀ b, method.2.body? = some b → b.Placed m.documents.length)
    (overflows : ∀ {defect}, m.SymbolOverflow defect → reason (.malformed defect)) :
    Attempt (fun _ => True) reason
      ((do TableStreamBuilder.add rows.1; TableStreamBuilder.add rows.2 : EStateM Error TableStreamBuilder Unit)
        { layout := layout rows d }) := by
  refine attempt_added described (fun has => ?_) (fun has => ?_) (SymbolWriter.row_document_le described placed)
  · by_cases space : m.documentSpace + m.pointSpace ≤ 2 ^ 32
    · exact Layout.fails_of_exists (takes_blob (Nat.le_trans room.blobs.bound space) has)
    · exact Layout.column_fails fun _ => overflows (.column (.inr (Nat.lt_of_not_le space)))
  · by_cases few : m.documentGuids.dedup.length < 2 ^ 32
    · exact Layout.fails_of_exists (takes_guid (Nat.lt_of_le_of_lt room.guids.length_le few) has)
    · exact Layout.column_fails fun _ => overflows (.column (.inl (Nat.le_of_not_lt few)))

end SymbolStreams

end CilWeaver
