import CilWeaver.Proofs.OtherBodies

/-!
The symbols of a module with other bodies. The documents are written as they were, and the points of each body have a
stored form of their own.
-/

namespace CilWeaver

open Code Step

/-- The points of a body can be stored. -/
def MethodBody.StoresPoints (m : Module) (b : MethodBody) : Prop :=
  b.Placed m.documents.length ∧ ∃ blob, b.encodedPoints = .ok blob ∧ blob.length < 2 ^ 29

/-- A short blob is added, unless the heap is out of reach. -/
theorem BlobHeapBuilder.add_short {blob : Bytes} (short : blob.length < 2 ^ 29) (b : BlobHeapBuilder) :
    (∃ e, add blob b = .error e b ∧ 2 ^ 32 ≤ b.data.length) ∨ ∃ index b', add blob b = .ok index b' := by
  have ends := add_ends blob b
  have reach : Attempt (fun _ => True) (fun _ => 2 ^ 32 ≤ b.data.length) (add blob b) :=
    attempt_add trivial (fun _ _ _ _ => trivial) (fun long => absurd short (Nat.not_lt.mpr long)) fun _ far => far
  cases run : add blob b with
  | ok index b' => exact .inr ⟨index, b', rfl⟩
  | error e b' =>
    rw [run] at ends reach
    cases ends
    exact .inl ⟨e, rfl, reach⟩

namespace SymbolWriter

/-- The writer answers and leaves the identifiers as they are, unless the blobs get out of reach. -/
def Finishes {α : Type} (w : SymbolWriter α) : Prop :=
  ∀ d, (∃ e s, w d = .error e s ∧ 2 ^ 32 ≤ s.blobs.data.length) ∨ ∃ a s, w d = .ok a s ∧ s.guids = d.guids

namespace Finishes

variable {α β : Type}

theorem pure (a : α) : Finishes (Pure.pure a) := fun d => .inr ⟨a, d, rfl, rfl⟩

theorem bind {x : SymbolWriter α} {f : α → SymbolWriter β} (first : Finishes x) (second : ∀ a, Finishes (f a)) :
    Finishes (x >>= f) := by
  intro d
  rcases first d with ⟨e, s, stopped, reach⟩ | ⟨a, s, run, guids⟩
  · exact .inl ⟨e, s, bind_of_error stopped f, reach⟩
  · rw [bind_of_ok run]
    rcases second a s with stopped | ⟨b, s', run', guids'⟩
    · exact .inl stopped
    · exact .inr ⟨b, s', run', guids'.trans guids⟩

theorem mapM {f : α → SymbolWriter β} {items : List α} (each : ∀ a ∈ items, Finishes (f a)) : Finishes (items.mapM f) := by
  induction items with
  | nil => exact pure []
  | cons a items ih =>
    rw [List.mapM_cons]
    have first := each a List.mem_cons_self
    have others := ih fun b member => each b (List.mem_cons_of_mem a member)
    exact first.bind fun b => others.bind fun bs => pure (b :: bs)

theorem addBlob {blob : Bytes} (short : blob.length < 2 ^ 29) : Finishes (addBlob blob) := by
  intro d
  unfold SymbolWriter.addBlob onBlobs
  rcases BlobHeapBuilder.add_short short d.blobs with ⟨e, stopped, reach⟩ | ⟨index, blobs, run⟩
  · rw [stopped]
    exact .inl ⟨e, d, rfl, reach⟩
  · rw [run]
    exact .inr ⟨index, _, rfl, rfl⟩

theorem debugRow (method : String) {body? : Option MethodBody}
    (points : ∀ b, body? = some b → ∃ blob, b.encodedPoints = .ok blob ∧ blob.length < 2 ^ 29) :
    Finishes (debugRow method body? (body?.map fun b => offsets (promote b.code))) := by
  cases body? with
  | none => exact pure _
  | some b =>
    obtain ⟨blob, encoded, short⟩ := points b rfl
    unfold MethodBody.encodedPoints at encoded
    unfold SymbolWriter.debugRow
    rw [Option.bind_some, Option.map_some]
    cases shape : b.symbols? with
    | none => exact pure _
    | some symbols =>
      simp only [shape] at encoded ⊢
      by_cases none : symbols.points.isEmpty = true
      · rw [if_pos none]
        exact pure _
      · rw [if_neg none] at encoded ⊢
        rw [encoded]
        exact (addBlob short).bind fun index => pure _

end Finishes

end SymbolWriter

variable {m : Module} {f' : MethodDef → Option MethodBody}

/-- How many bytes of blobs the writer of the symbols leaves, whether it gets to its end or not. -/
def Module.pointReach (m : Module) : Nat :=
  match (SymbolWriter.rows m m.offsets).run {} with
  | .ok _ d => d.blobs.data.length
  | .error _ d => d.blobs.data.length

theorem Module.methodList_mapBodies (m : Module) (f : MethodDef → Option MethodBody) :
    (m.mapBodies f).methodList = m.methodList.map fun (t, d) => (t.mapBodies f, d.withBody f) := by
  unfold Module.methodList Module.mapBodies TypeDef.mapBodies
  simp only [List.flatMap_map, List.map_flatMap, List.map_map, Function.comp_def]

/-- The documents of a module are written first, and their identifiers are all that the symbols hold. -/
theorem SymbolStreams.documents_of_ofModule {offsets : List (Option (List Nat))} {symbols : SymbolStreams}
    (made : ofModule m offsets = .ok symbols) : ∃ documents d, m.documents.mapM SymbolWriter.documentRow {} = .ok documents d ∧
      d.guids.guids.length ≤ symbols.guids.length := by
  unfold ofModule at made
  cases run : (SymbolWriter.rows m offsets).run {} with
  | error e d =>
    rw [run] at made
    cases made
  | ok rows d =>
    rw [run] at made
    obtain ⟨tables, -, made⟩ := Outcome.bind_eq_ok.mp made
    obtain ⟨documents, d₀, first, second⟩ := bind_eq_ok.mp run
    obtain ⟨methods, d₁, last, done⟩ := bind_eq_ok.mp second
    obtain ⟨-, rfl⟩ := pure_eq_ok.mp done
    obtain ⟨sound, -, -⟩ := (Writes.mapM fun document _ => SymbolWriter.writes_documentRow document) {} documents d₀
      SymbolDraft.sound_empty first
    obtain ⟨-, grows, -⟩ := (Writes.mapM fun method _ => SymbolWriter.writes_debugRow _ method.1.2.body? method.2) d₀ methods d₁
      sound last
    have guids : d₁.guids.build.length = 16 * d₁.guids.guids.length := GuidHeap.length_flatMap d₁.guids.guids
    have more := grows.guids.length_le
    rw [← Outcome.pure_eq_ok.mp made]
    refine ⟨documents, d₀, first, ?_⟩
    dsimp only
    omega

/-- The symbols of a module can be made with other bodies whose points have a stored form, unless the blobs get out of
    reach. -/
theorem SymbolStreams.exists_others {offsets : List (Option (List Nat))} {symbols : SymbolStreams}
    (made : ofModule m offsets = .ok symbols) (few : symbols.guids.length < 2 ^ 32)
    (points : ∀ method ∈ m.types.flatMap (·.methods), ∀ b, f' method = some b → b.StoresPoints m)
    (reach : (m.mapBodies f').pointReach < 2 ^ 32) :
    ∃ symbols', ofModule (m.mapBodies f') (m.mapBodies f').offsets = .ok symbols' := by
  obtain ⟨documents, d₀, written, guids⟩ := documents_of_ofModule made
  have listed : ∀ method ∈ (m.mapBodies f').methodList, ∀ b, method.2.body? = some b → b.StoresPoints m := by
    intro method member b body
    rw [Module.methodList_mapBodies] at member
    obtain ⟨⟨t, d⟩, own, rfl⟩ := List.mem_map.mp member
    exact points d (ModuleRows.methodList_map_snd m ▸ List.mem_map_of_mem own) b body
  have methods : SymbolWriter.Finishes (((m.mapBodies f').methodList.zip (m.mapBodies f').offsets).mapM
      fun item => SymbolWriter.debugRow (item.1.1.methodText item.1.2.name) item.1.2.body? item.2) := by
    unfold Module.offsets
    rw [SymbolWriter.zip_methodList, List.mapM_map]
    exact .mapM fun method member => .debugRow _ fun b body => (listed method member b body).2
  have start (rest : List DocumentRow → SymbolWriter (List DocumentRow × List MethodDebugRow)) :
      ((m.mapBodies f').documents.mapM SymbolWriter.documentRow >>= rest) {} = rest documents d₀ := bind_of_ok written rest
  unfold Module.pointReach SymbolWriter.rows EStateM.run at reach
  rw [start] at reach
  rcases methods d₀ with ⟨e, s, stopped, far⟩ | ⟨rows, d, run, kept⟩
  · rw [bind_of_error stopped] at reach
    exact absurd reach (Nat.not_lt.mpr far)
  · rw [bind_of_ok run] at reach
    have whole : (SymbolWriter.rows (m.mapBodies f') (m.mapBodies f').offsets).run {} = .ok (documents, rows) d := by
      unfold SymbolWriter.rows EStateM.run
      rw [start, bind_of_ok run]
      rfl
    obtain ⟨-, -, describes⟩ := SymbolWriter.writes_rows _ _ {} _ d SymbolDraft.sound_empty whole
    obtain ⟨debugs, described⟩ := describes d (SymbolDraft.Grows.refl d)
    have bound := SymbolWriter.row_document_le described fun method member b body => (listed method member b body).1
    obtain ⟨b, added⟩ := exists_added described (Nat.le_of_lt reach) (by rw [kept]; omega) bound
    unfold ofModule
    rw [whole]
    exact ⟨_, Outcome.bind_eq_ok.mpr ⟨b.build, TableStreamBuilder.stream_of_ok added, rfl⟩⟩

end CilWeaver
