import CilWeaver.Proofs.OtherBodies
import CilWeaver.Proofs.OtherSymbols

/-!
How much code a writer leaves, whether it gets to its end or not: no more than the bodies of the module take. So a
module with other bodies is written whenever the module is, as long as the images stay within the reach of their
offsets.
-/

namespace CilWeaver

open Code Step

/-- The writer leaves at most so many more bytes of code, also where it fails. -/
structure CodeWithin {α : Type} (room : Nat) (w : ModuleWriter α) : Prop where
  answers : ∀ d a s, w d = .ok a s → s.il.length ≤ d.il.length + room
  failures : ∀ d e s, w d = .error e s → s.il.length ≤ d.il.length + room

namespace CodeWithin

open ModuleWriter

variable {α β : Type} {room more : Nat}

theorem pure (a : α) : CodeWithin 0 (Pure.pure a) := by
  refine ⟨fun d b s run => ?_, fun d e s run => by cases run⟩
  obtain ⟨-, rfl⟩ := pure_eq_ok.mp run
  exact Nat.le_refl _

theorem throw (e : Error) : CodeWithin 0 (MonadExcept.throw e : ModuleWriter α) := by
  refine ⟨fun d a s run => absurd run throw_ne_ok, fun d e' s run => ?_⟩
  cases run
  exact Nat.le_refl _

theorem mono {w : ModuleWriter α} (within : CodeWithin room w) (enough : room ≤ more) : CodeWithin more w :=
  ⟨fun d a s run => Nat.le_trans (within.answers d a s run) (Nat.add_le_add_left enough _),
    fun d e s run => Nat.le_trans (within.failures d e s run) (Nat.add_le_add_left enough _)⟩

theorem bind_of {x : ModuleWriter α} {f : α → ModuleWriter β} (first : CodeWithin room x)
    (second : ∀ d a s, x d = .ok a s → CodeWithin more (f a)) : CodeWithin (room + more) (x >>= f) := by
  constructor
  · intro d b s run
    obtain ⟨a, s₁, one, two⟩ := bind_eq_ok.mp run
    have before := first.answers d a s₁ one
    have after := (second d a s₁ one).answers s₁ b s two
    omega
  · intro d e s run
    rw [bind_apply] at run
    cases one : x d with
    | error e₁ s₁ =>
      rw [one] at run
      cases run
      exact (first.mono (Nat.le_add_right room more)).failures d e s one
    | ok a s₁ =>
      rw [one] at run
      have before := first.answers d a s₁ one
      have after := (second d a s₁ one).failures s₁ e s run
      omega

theorem bind {x : ModuleWriter α} {f : α → ModuleWriter β} (first : CodeWithin room x) (second : ∀ a, CodeWithin more (f a)) :
    CodeWithin (room + more) (x >>= f) := first.bind_of fun _ a _ _ => second a

/-- A writer to which the code is nothing leaves it as it is. -/
theorem of_ignores {w : ModuleWriter α} (ignores : IgnoresBodies w) : CodeWithin 0 w := by
  refine ⟨fun d a s run => ?_, fun d e s run => ?_⟩
  · have part := ModuleDraft.part_eq_of_run ignores run
    exact Nat.le_of_eq (congrArg (fun p : BodyPart => p.il.length) part)
  · have again := (ignores d.part).failures run
    change w d = _ at again
    rw [run] at again
    injection again with _ same
    rw [same]
    exact Nat.le_refl _

/-- A step that leaves the code alone, in front of others. -/
theorem bind_ignored {x : ModuleWriter α} {f : α → ModuleWriter β} (ignores : IgnoresBodies x)
    (second : ∀ a, CodeWithin room (f a)) : CodeWithin room (x >>= f) :=
  ((of_ignores ignores).bind second).mono (Nat.le_of_eq (Nat.zero_add room))

theorem addLiteral (text : String) : CodeWithin 0 (addLiteral text) := by
  unfold ModuleWriter.addLiteral onPart
  refine ⟨fun d a s run => ?_, fun d e s run => ?_⟩
  all_goals
    cases added : UserStringHeapBuilder.add text d.userStrings <;> rw [added] at run <;> cases run
    exact Nat.le_refl _

theorem encodeOperand (context : String) (offsets : Array Nat) (next : Nat) (kind : OperandKind) (operand : Operand) :
    CodeWithin 0 (encodeOperand ModuleWriter.addLiteral context offsets next kind operand) := by
  cases operand with
  | string text =>
    refine @bind _ _ 0 0 _ _ (addLiteral text) fun index => ?_
    by_cases far : 0xFFFFFF < index
    · simp only [far, ↓reduceIte]
      exact @bind _ _ 0 0 _ _ (throw _) fun _ => pure _
    · simp only [far, ↓reduceIte]
      exact pure _
  | _ => exact pure _

theorem encodeInstructions (context : String) (offsets : Array Nat) (done : List Bytes) (ends : List Nat) (code : List Instruction) :
    CodeWithin 0 (encodeInstructions ModuleWriter.addLiteral context offsets done ends code) := by
  induction code generalizing done ends with
  | nil => cases ends <;> exact pure _
  | cons i code ih =>
    cases ends with
    | nil => exact pure _
    | cons next ends => exact (encodeOperand context offsets next _ _).bind fun operand => ih _ ends

theorem encode (context : String) (code : List Instruction) : CodeWithin 0 (Code.encode ModuleWriter.addLiteral context code) := by
  unfold Code.encode
  cases Code.check code with
  | error fault => exact throw _
  | ok => exact (encodeInstructions _ _ _ _ _).bind fun bytes => pure _

theorem store (context : String) (b : MethodBody) {e : EncodedBody} (size : e.bytes.length = codeSize (promote b.code)) :
    CodeWithin b.storedSpace (store context b e) := by
  refine ⟨fun d a s run => ?_, fun d e' s run => ?_⟩
  · rw [store_apply] at run
    cases written : (rawOf b e).encode d.il.length with
    | error defect =>
      rw [written] at run
      cases run
    | ok bytes =>
      rw [written] at run
      cases run
      obtain ⟨bytes', again, short⟩ := RawBody.exists_encode (RawBody.few_of_encode written) (RawBody.size_of_encode written) d.il.length
      rw [written] at again
      cases again
      unfold rawOf at short
      rw [List.length_map, size] at short
      rw [List.length_append]
      unfold MethodBody.storedSpace
      omega
  · rw [store_apply] at run
    cases written : (rawOf b e).encode d.il.length <;> rw [written] at run <;> cases run
    exact Nat.le_add_right _ _

theorem addBody (m : Module) (context : String) (b : MethodBody) : CodeWithin b.storedSpace (addBody m context b) := by
  rw [addBody_eq]
  refine .bind_ignored (.check _ _) fun _ => .bind_ignored (.check _ _) fun _ => ?_
  refine ((encode context b.code).bind_of fun d e s run => store context b ?_).mono (Nat.le_of_eq (Nat.zero_add _))
  obtain ⟨valid, indices, -, -, rfl⟩ := encode_eq_ok.mp run
  exact length_codeBytes valid.promote.wellFormed _ 0 indices

theorem addMethodBody (m : Module) (context : String) (body? : Option MethodBody) :
    CodeWithin (body?.elim 0 MethodBody.space) (addMethodBody m context body?) := by
  cases body? with
  | none => exact pure _
  | some b =>
    have padded : CodeWithin 3 (modify fun d : ModuleDraft => { d with il := padTo 4 d.il } : ModuleWriter Unit) := by
      refine ⟨fun d a s run => ?_, fun d e s run => by cases run⟩
      cases run
      exact ModuleStreams.length_padTo_le d.il
    have same : CodeWithin 0 (get : ModuleWriter ModuleDraft) := by
      refine ⟨fun d a s run => ?_, fun d e s run => by cases run⟩
      cases run
      exact Nat.le_refl _
    unfold ModuleWriter.addMethodBody
    refine padded.bind fun _ => (same.bind fun d => ?_).mono (Nat.le_of_eq (Nat.zero_add _))
    have rest : CodeWithin b.storedSpace (do
        return (UInt32.ofNat d.il.length, some (← ModuleWriter.addBody m context b)) : ModuleWriter (UInt32 × Option (List Nat))) :=
      (addBody m context b).bind fun offsets => pure _
    by_cases far : 2 ^ 32 ≤ d.il.length
    · simp only [far, ↓reduceIte]
      exact (bind_ignored (fun _ => .throw _) fun _ => rest)
    · simp only [far, ↓reduceIte]
      exact rest

theorem methodRows (m : Module) (owner : TypeDef) (firstParam : Nat) (d : MethodDef) :
    CodeWithin d.space (methodRows m owner firstParam d) := by
  unfold ModuleWriter.methodRows
  refine @bind _ _ d.space 0 _ _ (addMethodBody _ _ _) fun found => .bind_ignored (.addString _) fun _ => ?_
  exact .bind_ignored (.addBlob _) fun _ => .bind_ignored (.mapM .paramRow) fun _ => pure _

theorem allMethodRows (m : Module) (owner : TypeDef) (firstParam : Nat) (ds : List MethodDef) :
    CodeWithin (ds.map MethodDef.space).sum (allMethodRows m owner firstParam ds) := by
  induction ds generalizing firstParam with
  | nil => exact pure _
  | cons d ds ih =>
    rw [List.map_cons, List.sum_cons]
    exact (methodRows m owner firstParam d).bind fun _ => @bind _ _ _ 0 _ _ (ih _) fun _ => pure _

theorem typeRows (m : Module) (firstField firstMethod firstParam : Nat) (t : TypeDef) :
    CodeWithin t.space (typeRows m firstField firstMethod firstParam t) := by
  unfold ModuleWriter.typeRows
  refine .bind_ignored (.baseType _ _) fun _ => .bind_ignored (.addString _) fun _ => .bind_ignored (.addString _) fun _ => ?_
  refine .bind_ignored (.mapM .fieldRow) fun _ => ?_
  exact @bind _ _ t.space 0 _ _ (allMethodRows m t firstParam t.methods) fun _ => pure _

theorem allTypeRows (m : Module) (firstField firstMethod firstParam : Nat) (ts : List TypeDef) :
    CodeWithin (ts.map TypeDef.space).sum (allTypeRows m firstField firstMethod firstParam ts) := by
  induction ts generalizing firstField firstMethod firstParam with
  | nil => exact pure _
  | cons t ts ih =>
    rw [List.map_cons, List.sum_cons]
    exact (typeRows m _ _ _ t).bind fun _ => @bind _ _ _ 0 _ _ (ih _ _ _) fun _ => pure _

/-- Writing a module leaves the code of its bodies. -/
theorem ofModule (m : Module) : CodeWithin (m.types.map TypeDef.space).sum (ModuleRows.ofModule m) := by
  unfold ModuleRows.ofModule
  refine .bind_ignored (.check _ _) fun _ => .bind_ignored (.moduleRow m) fun _ => ?_
  refine .bind_ignored (.mapM fun (r, position) => .typeRefRow m r position) fun _ => ?_
  refine @bind _ _ _ 0 _ _ (allTypeRows m 1 1 1 m.types) fun _ => ?_
  refine .bind_ignored (.mapM fun (r, position) => .memberRefRow m r position) fun _ => .bind_ignored (.mapM .signatureRow) fun _ => ?_
  exact .bind_ignored (.mapM .assemblyRow) fun _ => .bind_ignored (.mapM .assemblyRefRow) fun _ => pure _

end CodeWithin

/-- A module leaves no more code than its bodies take. -/
theorem Module.codeReach_le (m : Module) : m.codeReach ≤ m.codeSpace := by
  have within := CodeWithin.ofModule m
  unfold codeReach codeSpace
  cases run : (ModuleRows.ofModule m).run {} with
  | ok rows d => exact within.answers {} rows d run
  | error e d => exact within.failures {} e d run

/-! Images within the reach of their offsets -/

open Step

namespace Root

/-- The size of the image of some streams. -/
def imageSize (version : String) (streams : List (String × Bytes)) : Nat := rootSize version streams + (contents streams).length

/-- The size depends on the names and the sizes of the streams only. -/
theorem imageSize_congr {version : String} {streams streams' : List (String × Bytes)}
    (same : streams'.map (fun s => (s.1, s.2.length)) = streams.map fun s => (s.1, s.2.length)) :
    imageSize version streams' = imageSize version streams := by
  have names : (streams'.map fun s => StreamHeader.diskSize s.1) = streams.map fun s => StreamHeader.diskSize s.1 := by
    have first := congrArg (List.map fun s => StreamHeader.diskSize s.1) same
    rwa [List.map_map, List.map_map] at first
  have sizes (streams : List (String × Bytes)) : (contents streams).length =
      ((streams.map fun s => (s.1, s.2.length)).map fun s => (s.2 + 3) / 4 * 4).sum := by
    rw [contents, List.length_flatMap, List.map_map]
    exact congrArg List.sum (List.map_congr_left fun s _ => padTo_length_eq s.2)
  unfold imageSize rootSize
  rw [names, sizes, sizes, same]

theorem mem_headersFrom {streams : List (String × Bytes)} {stream : String × Bytes} (member : stream ∈ streams) (offset : Nat) :
    ∃ header ∈ headersFrom offset streams, header.size = (padTo 4 stream.2).length := by
  induction streams generalizing offset with
  | nil => cases member
  | cons first streams ih =>
    rcases List.mem_cons.mp member with rfl | member
    · exact ⟨_, List.mem_cons_self, rfl⟩
    · obtain ⟨header, inside, size⟩ := ih member (offset + (padTo 4 first.2).length)
      exact ⟨header, List.mem_cons_of_mem _ inside, size⟩

theorem length_lt_of_build {version : String} {streams : List (String × Bytes)} {data : Bytes}
    (built : build version streams = .ok data) {stream : String × Bytes} (member : stream ∈ streams) :
    stream.2.length < 2 ^ 32 := by
  obtain ⟨-, bounds, -⟩ := build_eq built
  obtain ⟨header, inside, size⟩ := mem_headersFrom member (rootSize version streams)
  have bound := (bounds header inside).2
  rw [size, length_padTo] at bound
  omega

end Root

namespace Module

/-- The debug record of a module with the given identifier, if the module has symbols. -/
def record? (m : Module) (id : ImageId) : Option CodeViewRecord := m.symbols?.map fun file => ⟨id, file.age, file.path⟩

/-- Both images of a module stay below four gigabytes, and so do the code and the blobs as far as they are written. -/
structure InReach (m : Module) : Prop where
  code : m.codeReach < 2 ^ 32
  image : ∀ streams, ModuleStreams.ofModule m = .ok streams → ∀ id,
    Root.imageSize m.runtimeVersion (streams.named (m.record? id)) < 2 ^ 32
  points : m.symbols?.isSome = true → m.pointReach < 2 ^ 32
  symbols : m.symbols?.isSome = true → ∀ symbols, SymbolStreams.ofModule m m.offsets = .ok symbols → ∀ id,
    Root.imageSize SymbolStreams.version (symbols.named id) < 2 ^ 32

variable {m : Module} {f' : MethodDef → Option MethodBody} {digest : Bytes → ImageId} {e : EmittedModule}

/-- What is asked of the bodies that a module is written with instead of its own. -/
structure StoresBodies (m : Module) (f' : MethodDef → Option MethodBody) : Prop where
  bodies : ∀ method ∈ m.types.flatMap (·.methods), ∀ b, f' method = some b → b.Storable m
  points : m.symbols?.isSome = true → ∀ method ∈ m.types.flatMap (·.methods), ∀ b, f' method = some b → b.StoresPoints m
  literals : ∃ last, ({} : UserStringHeapBuilder).Adds (bodyLiterals f' (m.types.flatMap (·.methods))) last

/-- The identifier of the images has no influence on their sizes. -/
theorem inReach_of_zero (code : m.codeReach < 2 ^ 32) (points : m.pointReach < 2 ^ 32)
    (image : ∃ streams, ModuleStreams.ofModule m = .ok streams ∧
      Root.imageSize m.runtimeVersion (streams.named (m.record? .zero)) < 2 ^ 32)
    (symbols : ∃ symbols, SymbolStreams.ofModule m m.offsets = .ok symbols ∧
      Root.imageSize SymbolStreams.version (symbols.named .zero) < 2 ^ 32) : m.InReach := by
  refine ⟨code, fun streams made id => ?_, fun _ => points, fun _ own made id => ?_⟩
  · obtain ⟨found, known, small⟩ := image
    rw [known] at made
    cases made
    refine Nat.lt_of_le_of_lt (Nat.le_of_eq (Root.imageSize_congr ?_)) small
    unfold record? ModuleStreams.named
    cases m.symbols? with
    | none => rfl
    | some file =>
      simp only [Option.map_some, Option.toList_some, List.map_append, List.map_cons, List.map_nil, CodeViewRecord.length_build]
  · obtain ⟨found, known, small⟩ := symbols
    rw [known] at made
    cases made
    refine Nat.lt_of_le_of_lt (Nat.le_of_eq (Root.imageSize_congr ?_)) small
    unfold SymbolStreams.named
    simp only [List.map_cons, List.map_nil, PdbStream.length_build]

/-- The image of a module without symbols stays within reach of its offsets if what it has besides its bodies, its
    literals and its code do. -/
theorem inReach_others {streams : ModuleStreams} (made : ModuleStreams.ofModule m = .ok streams) (absent : m.symbols? = none)
    (storable : ∀ method ∈ m.types.flatMap (·.methods), ∀ b, f' method = some b → b.Storable m) {last : UserStringHeapBuilder}
    (adds : ({} : UserStringHeapBuilder).Adds (bodyLiterals f' (m.types.flatMap (·.methods))) last)
    (space : 1024 + Root.versionFieldSize m.runtimeVersion + tableSpace (Table.ofModule.map fun t => (t, m.rows t))
      + streams.strings.length + streams.guids.length + streams.blobs.length + last.data.length + (m.mapBodies f').codeSpace < 2 ^ 32) :
    (m.mapBodies f').InReach := by
  have code := (m.mapBodies f').codeReach_le
  obtain ⟨streams', made', shape, tables, il⟩ := ModuleStreams.exists_others made storable adds (by omega)
  have noSymbols : ¬ (m.mapBodies f').symbols?.isSome = true := by
    change ¬ m.symbols?.isSome = true
    rw [absent]
    exact Bool.false_ne_true
  refine ⟨by omega, ?_, fun present => absurd present noSymbols, fun present => absurd present noSymbols⟩
  intro found same id
  rw [made'] at same
  cases same
  have headers := streams'.headers_le none
  have literals : last.build.length ≤ last.data.length + 3 := ModuleStreams.length_padTo_le last.data
  have contents : (Root.contents (streams'.named none)).length ≤ streams'.tables.length + streams.strings.length
      + last.build.length + streams.guids.length + streams.blobs.length + streams'.il.length + 18 := by
    apply Nat.le_trans (Root.length_contents_le _)
    rw [shape]
    unfold ModuleStreams.named
    simp only [Option.toList_none, List.map_append, List.map_cons, List.map_nil, List.sum_append, List.sum_cons, List.sum_nil]
    omega
  have record : (m.mapBodies f').record? id = none := Option.map_eq_none_iff.mpr absent
  rw [record]
  change Root.rootSize m.runtimeVersion (streams'.named none) + _ < _
  unfold Root.rootSize
  omega

/-- A module that is written is written with other bodies that have a stored form. -/
theorem emit_others (emitted : m.emit digest = .ok e) (stores : m.StoresBodies f') (reach : (m.mapBodies f').InReach) :
    ∃ e', (m.mapBodies f').emit digest = .ok e' := by
  obtain ⟨last, adds⟩ := stores.literals
  unfold emit at emitted
  obtain ⟨streams, made, emitted⟩ := Outcome.bind_eq_ok.mp emitted
  have short : Root.versionFieldSize m.runtimeVersion ≤ Root.maxVersionSize := by
    cases shape : m.symbols? with
    | none =>
      simp only [shape] at emitted
      obtain ⟨code, built, -⟩ := Outcome.bind_eq_ok.mp emitted
      exact (Root.build_eq built).1
    | some file =>
      simp only [shape] at emitted
      obtain ⟨symbols, -, emitted⟩ := Outcome.bind_eq_ok.mp emitted
      obtain ⟨blank, images, -⟩ := Outcome.bind_eq_ok.mp emitted
      exact (Root.build_eq (images_eq_ok.mp images).1).1
  obtain ⟨streams', made', shape', -, -⟩ := ModuleStreams.exists_others made stores.bodies adds reach.code
  have offsets : streams'.offsets = (m.mapBodies f').offsets := by
    rw [shape']
  have image (id : ImageId) : ∃ code, streams'.image (m.mapBodies f').runtimeVersion ((m.mapBodies f').record? id) = .ok code :=
    Root.exists_build short (reach.image streams' made' id)
  have present : (m.mapBodies f').symbols? = m.symbols? := rfl
  unfold emit
  rw [made', Outcome.ok_bind, present]
  unfold record? at image
  rw [present] at image
  cases shape : m.symbols? with
  | none =>
    rw [shape] at image
    obtain ⟨code, built⟩ := image .zero
    exact ⟨⟨code, []⟩, Outcome.bind_eq_ok.mpr ⟨code, built, rfl⟩⟩
  | some file =>
    have isSome : m.symbols?.isSome = true := by
      rw [shape]
      rfl
    rw [shape] at image
    simp only [shape] at emitted
    obtain ⟨symbols, madeSymbols, emitted⟩ := Outcome.bind_eq_ok.mp emitted
    obtain ⟨blank, images, -⟩ := Outcome.bind_eq_ok.mp emitted
    have few : symbols.guids.length < 2 ^ 32 := by
      have built : Root.build SymbolStreams.version (symbols.named .zero) = .ok blank.symbols := (images_eq_ok.mp images).2
      have member : (StreamName.guids, symbols.guids) ∈ symbols.named .zero := by simp [SymbolStreams.named]
      exact Root.length_lt_of_build built member
    obtain ⟨symbols', madeSymbols'⟩ := SymbolStreams.exists_others madeSymbols few (stores.points isSome) (reach.points isSome)
    have both (id : ImageId) : ∃ e', (m.mapBodies f').images file streams' symbols' id = .ok e' := by
      obtain ⟨code, built⟩ := image id
      obtain ⟨data, builtSymbols⟩ := Root.exists_build (show Root.versionFieldSize SymbolStreams.version ≤ Root.maxVersionSize by decide)
        (reach.symbols isSome symbols' madeSymbols' id)
      exact ⟨⟨code, data⟩, images_eq_ok.mpr ⟨built, builtSymbols⟩⟩
    obtain ⟨blank', first⟩ := both .zero
    obtain ⟨e', second⟩ := both (digest (blank'.code ++ blank'.symbols))
    refine ⟨e', ?_⟩
    dsimp only
    rw [offsets, madeSymbols', Outcome.ok_bind, first]
    exact second

end Module

end CilWeaver
