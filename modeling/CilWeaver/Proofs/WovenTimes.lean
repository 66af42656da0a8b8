import CilWeaver.Image.SymbolStreams
import CilWeaver.Proofs.Images
import CilWeaver.Proofs.SymbolImages
import CilWeaver.Proofs.TwinBodies
import CilWeaver.Proofs.Weaving

/-!
Weaving one module at two times. The modules that are written have the same rows, and their streams differ in the code
of the woven bodies only: the time shows in the constants of these bodies and in the identifier of the images, and
nowhere else.
-/

namespace CilWeaver

open Step

/-- A stored body stands at an address of the code. -/
def Stands (stored : StoredBody) (il : Bytes) (address : Nat) : Prop :=
  ∃ bytes, bytes <+: il.drop address ∧ ∀ more, StoredBody.parse (bytes ++ more) = .ok stored

theorem Stands.mono {stored : StoredBody} {il longer : Bytes} {address : Nat} (stands : Stands stored il address)
    (longer' : il <+: longer) : Stands stored longer address := by
  obtain ⟨bytes, start, parsed⟩ := stands
  exact ⟨bytes, start.trans (longer'.drop address), parsed⟩

theorem Stands.parse {stored : StoredBody} {il : Bytes} {address : Nat} (stands : Stands stored il address) :
    StoredBody.parse (il.drop address) = .ok stored := by
  obtain ⟨bytes, ⟨more, whole⟩, parsed⟩ := stands
  rw [← whole]
  exact parsed more

/-- The places in the code of bodies, as places of the whole code. -/
def BodyPlaces (places : MethodDef → Bytes → Nat → Prop) (done : List (MethodDef × UInt32)) (il : Bytes) (i : Nat) : Prop :=
  ∃ d address stored k, (d, address) ∈ done ∧ Stands stored il address.toNat ∧ places d stored.code k ∧
    i = address.toNat + (stored.headerSize + k)

variable {places : MethodDef → Bytes → Nat → Prop}

theorem BodyPlaces.mono {done more : List (MethodDef × UInt32)} {il longer : Bytes} {i : Nat}
    (place : BodyPlaces places done il i) (longer' : il <+: longer) : BodyPlaces places (done ++ more) longer i := by
  obtain ⟨d, address, stored, k, member, stands, inside, rfl⟩ := place
  exact ⟨d, address, stored, k, List.mem_append_left _ member, stands.mono longer', inside, rfl⟩

/-- Drafts that are the same but for the code of twins. -/
def Pairing.twins (places : MethodDef → Bytes → Nat → Prop) : Pairing BodyProgress ModuleDraft :=
  .ofParts (fun g x x' => x'.userStrings = x.userStrings ∧ DifferAt (BodyPlaces places g.done x.il) x.il x'.il) True
    (fun _ _ => False) fun _ _ _ => id

variable {m : Module} {f f' : MethodDef → Option MethodBody}

/-- Each method has twins as its bodies, or no body. -/
def TwinBodies (m : Module) (places : MethodDef → Bytes → Nat → Prop) (f f' : MethodDef → Option MethodBody) : Prop :=
  ∀ d, (f d = none ∧ f' d = none) ∨ ∃ b b', f d = some b ∧ f' d = some b' ∧ b.Twins m (places d) b'

theorem TwinBodies.matches (twins : TwinBodies m places f f') : BodiesMatch (.twins places) m f f' Eq := by
  intro context d pending done
  rcases twins d with ⟨none, none'⟩ | ⟨b, b', body, body', twin⟩
  · rw [none, none']
    constructor
    · rintro x x' a s ⟨shape, literals, differ⟩ run
      cases run
      exact .inr ⟨_, x', _, rfl, ⟨rfl, rfl⟩, shape, literals, differ.mono fun i place => place.mono (List.prefix_refl _)⟩
    · rintro - x x' e s - run
      cases run
  · rw [body, body']
    constructor
    · rintro x x' a s ⟨shape, literals, differ⟩ run
      have codes : Pairing.codes.Related (x.il, x'.il) x x' := by
        refine ⟨rfl, ?_⟩
        rw [ModuleDraft.withPart, literals] at shape
        exact shape
      rcases (ModuleWriter.addMethodBody_alike twin context differ.length).answers codes run with
        ⟨_, _, -, stops⟩ | ⟨a', s', _, run', ⟨rfl, bytes, bytes', rfl, address, stored, parsed, own⟩, code, rfl⟩
      · exact stops.elim
      · dsimp only at code address
        refine .inr ⟨a', _, _, run', ⟨rfl, rfl⟩, rfl, rfl, ?_⟩
        change DifferAt (BodyPlaces places (done ++ [(d, a'.1)]) s.il) s.il (padTo 4 x'.il ++ bytes')
        rw [code]
        refine (differ.padTo.append own).mono fun i among => ?_
        rcases among with before | ⟨_, ⟨k, inside, rfl⟩, rfl⟩
        · exact before.mono ((List.prefix_append _ _).trans (List.prefix_append _ _))
        · refine ⟨d, a'.1, stored, k, by simp, ⟨bytes, ?_, parsed⟩, inside, ?_⟩
          · rw [address, List.drop_left]
          · rw [address]
            rfl
    · rintro faithful x x' e s ⟨shape, literals, differ⟩ run
      have codes : Pairing.codes.Related (x.il, x'.il) x x' := by
        refine ⟨rfl, ?_⟩
        rw [ModuleDraft.withPart, literals] at shape
        exact shape
      exact (ModuleWriter.addMethodBody_alike twin context differ.length).failures trivial codes run

/-- The methods of a module with the addresses of their bodies. -/
def Module.placed (m : Module) (rows : ModuleRows) : List (MethodDef × UInt32) :=
  (m.types.flatMap (·.methods)).zip (ModuleWriter.addresses rows.methods)

theorem ModuleRows.Alike.eq {rows rows' : ModuleRows} (alike : rows.Alike Eq rows') : rows' = rows := by
  have methods {r r' : MethodRows} (alike : r.Alike Eq r') : r' = r := by
    obtain ⟨others, same⟩ := alike
    injection same with address offsets
    rw [others, ← address, ← offsets]
  have types {r r' : TypeRows} (alike : r.Alike Eq r') : r' = r := by
    obtain ⟨row, fields, members⟩ := alike
    have same : r'.methods = r.methods :=
      List.forall₂_eq_eq_eq ▸ (members.imp fun _ _ alike => (methods alike).symm) |>.symm
    cases r'
    cases r
    simp_all
  have same : rows'.types = rows.types :=
    List.forall₂_eq_eq_eq ▸ (alike.types.imp fun _ _ alike => (types alike).symm) |>.symm
  rw [alike.others, same]

namespace ModuleStreams

/-- The streams of twins, of which the first ones have the given rows and code. -/
structure Twins (places : MethodDef → Bytes → Nat → Prop) (m : Module) (f : MethodDef → Option MethodBody) (s s' : ModuleStreams) :
    Prop where
  others : s' = { s with il := s'.il }
  written : ∃ rows d, (ModuleRows.ofModule (m.mapBodies f)).run {} = .ok rows d ∧ s.il = d.il ∧
    DifferAt (BodyPlaces places (m.placed rows) s.il) s.il s'.il

theorem ofModule_twins (twins : TwinBodies m places f f') :
    Outcome.Alike (Twins places m f) (ofModule (m.mapBodies f)) (ofModule (m.mapBodies f')) := by
  have steps := ModuleRows.ofModule_alike twins.matches
  have start : (Pairing.twins places).Related ⟨m.types.flatMap (·.methods), []⟩ {} {} := ⟨rfl, rfl, .refl _ _⟩
  unfold ofModule EStateM.run
  rw [Module.rowCounts_mapBodies, Module.rowCounts_mapBodies]
  cases run : ModuleRows.ofModule (m.mapBodies f) {} with
  | error e s =>
    obtain ⟨s', run'⟩ := steps.failures trivial start run
    rw [run']
    exact .error e
  | ok rows d =>
    rcases steps.answers start run with ⟨_, _, -, stops⟩ | ⟨rows', d', _, run', ⟨alike, rfl⟩, shape, literals, differ⟩
    · exact stops.elim
    · rw [run']
      obtain rfl := alike.eq
      have same : d' = { d with il := d'.il } := by
        rw [ModuleDraft.withPart, literals] at shape
        exact shape
      rw [same]
      dsimp only
      cases made : TableStreamBuilder.stream (.ofCounts m.rowCounts (heapSizes d.strings.isLarge d.guids.isLarge d.blobs.isLarge))
          rows'.addTo with
      | error e => exact .error e
      | ok tables => exact .ok ⟨rfl, rows', d, run, rfl, differ⟩

end ModuleStreams

/-- The symbols of a module are written as its bodies have them, whatever the code of these is. -/
theorem SymbolStreams.ofModule_twins (symbols : ∀ d, (f' d).bind (·.symbols?) = (f d).bind (·.symbols?))
    (offsets : List (Option (List Nat))) : ofModule (m.mapBodies f') offsets = ofModule (m.mapBodies f) offsets := by
  have list (f : MethodDef → Option MethodBody) :
      (m.mapBodies f).methodList = m.methodList.map fun listed => (listed.1.mapBodies f, listed.2.withBody f) := by
    unfold Module.methodList Module.mapBodies TypeDef.mapBodies
    simp only [List.flatMap_map, List.map_flatMap, List.map_map, Function.comp_def]
  have writes (f : MethodDef → Option MethodBody) : SymbolWriter.rows (m.mapBodies f) offsets = (do
      let documents ← m.documents.mapM SymbolWriter.documentRow
      let methods ← (m.methodList.zip offsets).mapM fun item =>
        SymbolWriter.debugRow (item.1.1.methodText item.1.2.name) (f item.1.2) item.2
      return (documents, methods)) := by
    unfold SymbolWriter.rows
    rw [list, List.zip_map_left, List.mapM_map]
    rfl
  have rows : SymbolWriter.rows (m.mapBodies f') offsets = SymbolWriter.rows (m.mapBodies f) offsets := by
    have each (method : String) (d : MethodDef) (offsets? : Option (List Nat)) :
        SymbolWriter.debugRow method (f' d) offsets? = SymbolWriter.debugRow method (f d) offsets? := by
      unfold SymbolWriter.debugRow
      rw [symbols]
    rw [writes, writes]
    simp only [each]
  unfold ofModule
  rw [rows, Module.rowCounts_mapBodies, Module.rowCounts_mapBodies]
  rfl

/-! One module, two times -/

/-- The body that weaving gives a method. -/
def MethodDef.wovenBody? (time : TimeOfDay) (policy : DeadCodePolicy) (d : MethodDef) : Option MethodBody :=
  if d.isMarker then d.body?.map (MethodBody.woven time policy) else d.body?

theorem MethodDef.weave_eq_withBody (time : TimeOfDay) (policy : DeadCodePolicy) (d : MethodDef) :
    d.weave time policy = d.withBody (wovenBody? time policy) := by
  rw [weave_eq]
  unfold withBody wovenBody? isMarker
  by_cases marker : d.name = markerName
  · rw [if_pos marker, if_pos (beq_iff_eq.mpr marker)]
  · rw [if_neg marker, if_neg (by rwa [beq_iff_eq])]

theorem Module.weaveMarkers_eq_mapBodies (m : Module) (time : TimeOfDay) (policy : DeadCodePolicy) :
    m.weaveMarkers time policy = m.mapBodies (MethodDef.wovenBody? time policy) := by
  have methods : MethodDef.weave time policy = MethodDef.withBody (MethodDef.wovenBody? time policy) :=
    funext (MethodDef.weave_eq_withBody time policy)
  unfold Module.weaveMarkers
  rw [methods]
  rfl

/-- The operand of the constant in the code of a woven method. -/
def OperandPlaces (time : TimeOfDay) (d : MethodDef) (code : Bytes) (i : Nat) : Prop :=
  d.isMarker = true ∧ d.body?.isSome = true ∧ EncodesAlike.InConstant time.constant code i

theorem MethodBody.woven_code (b : MethodBody) (policy : DeadCodePolicy) :
    ∃ rest, ∀ time, (b.woven time policy).code = .ldcI4 time.constant :: rest := by
  cases policy with
  | preserve => exact ⟨_, fun _ => rfl⟩
  | strip => exact ⟨_, fun _ => rfl⟩

theorem MethodBody.woven_twins (m : Module) (time other : TimeOfDay) (policy : DeadCodePolicy) {d : MethodDef} {b : MethodBody}
    (marker : d.isMarker = true) (body : d.body? = some b) :
    (b.woven time policy).Twins m (OperandPlaces time d) (b.woven other policy) := by
  obtain ⟨rest, code⟩ := b.woven_code policy
  have others : b.woven other policy = { b.woven time policy with code := (b.woven other policy).code } := by
    cases policy with
    | preserve => rfl
    | strip => rfl
  refine ⟨others, ?_, ?_, ?_⟩
  · rw [code, code, List.length_cons, List.length_cons]
  · rw [others]
    unfold ModuleWriter.bodyTokenCheck
    simp only [code]
    rfl
  · rw [code, code]
    refine (EncodesAlike.constant time.constant other.constant rest).mono fun code i inside => ?_
    exact ⟨marker, by rw [body]; rfl, inside⟩

theorem MethodDef.woven_twins (m : Module) (time other : TimeOfDay) (policy : DeadCodePolicy) :
    TwinBodies m (OperandPlaces time) (wovenBody? time policy) (wovenBody? other policy) := by
  intro d
  unfold wovenBody?
  cases body : d.body? with
  | none => exact .inl ⟨by rw [Option.map_none, ite_self], by rw [Option.map_none, ite_self]⟩
  | some b =>
    by_cases marker : d.isMarker = true
    · rw [if_pos marker, if_pos marker]
      exact .inr ⟨_, _, rfl, rfl, b.woven_twins m time other policy marker body⟩
    · rw [if_neg marker, if_neg marker]
      exact .inr ⟨b, b, rfl, rfl, rfl, rfl, rfl, .refl _ _⟩

theorem MethodDef.wovenBody_symbols (time other : TimeOfDay) (policy : DeadCodePolicy) (d : MethodDef) :
    (d.wovenBody? other policy).bind (·.symbols?) = (d.wovenBody? time policy).bind (·.symbols?) := by
  unfold wovenBody?
  cases d.isMarker with
  | false => rfl
  | true =>
    cases d.body? with
    | none => rfl
    | some b =>
      cases policy with
      | preserve => rfl
      | strip => rfl

/-- The twenty bytes of an identifier that starts at the given place of a stream. -/
def IdPlaces (start i : Nat) : Prop := start ≤ i ∧ i < start + ImageId.size

namespace ImageId

theorem differ (id id' : ImageId) : DifferAt (IdPlaces 0) id.bytes id'.bytes := by
  refine (DifferAt.of_length (id'.length_eq.trans id.length_eq.symm)).mono fun i inside => ?_
  rw [id.length_eq] at inside
  exact ⟨Nat.zero_le i, by rw [Nat.zero_add]; exact inside⟩

end ImageId

theorem CodeViewRecord.differ (id id' : ImageId) (age : UInt32) (path : String) :
    DifferAt (IdPlaces 4) (build ⟨id, age, path⟩) (build ⟨id', age, path⟩) := by
  have four : (u32Bytes signature).length = 4 := rfl
  refine (((((id.differ id').same_append (u32Bytes signature)).append_same _).append_same _).append_same _).mono fun i among => ?_
  obtain ⟨j, inside, rfl⟩ := among
  rw [four]
  unfold IdPlaces at inside ⊢
  omega

theorem PdbStream.differ (id id' : ImageId) (entryPoint : Token) (rows : List (Table × UInt32)) :
    DifferAt (IdPlaces 0) (build ⟨id, entryPoint, rows⟩) (build ⟨id', entryPoint, rows⟩) :=
  (((id.differ id').append_same _).append_same _).append_same _

/-- Where the code image of a woven module shows the time: in the constants, and in the identifier. -/
def CodePlaces (time : TimeOfDay) (placed : List (MethodDef × UInt32)) (il : Bytes) (name : String) (i : Nat) : Prop :=
  (name = StreamName.il ∧ BodyPlaces (OperandPlaces time) placed il i) ∨ (name = StreamName.codeView ∧ IdPlaces 4 i)

/-- Where the symbol image of a woven module shows the time: in the identifier. -/
def SymbolPlaces (name : String) (i : Nat) : Prop := name = StreamName.pdb ∧ IdPlaces 0 i

/-- The image of some streams, and an image that differs from it only in places of the streams. -/
def ImageDiffers (places : String → Nat → Prop) (version : String) (streams : List (String × Bytes)) (image image' : Bytes) :
    Prop :=
  Root.build version streams = .ok image ∧ DifferAt (Root.InStreams places (Root.headersOf version streams)) image image'

/-- The code images of a woven module and of its twin: the places are those of the rows and the code of the first. -/
def CodeDiffers (time : TimeOfDay) (m woven : Module) (image image' : Bytes) : Prop :=
  ∃ rows d streams, (ModuleRows.ofModule woven).run {} = .ok rows d ∧ streams.lookup StreamName.il = some d.il ∧
    ImageDiffers (CodePlaces time (m.placed rows) d.il) m.runtimeVersion streams image image'

/-- The symbol images of twins; there are none without symbols. -/
def SymbolsDiffer (image image' : Bytes) : Prop :=
  (image = [] ∧ image' = []) ∨ ∃ streams, ImageDiffers SymbolPlaces SymbolStreams.version streams image image'

variable {time : TimeOfDay} {m : Module} {f : MethodDef → Option MethodBody}

namespace ModuleStreams

theorem image_twins {s s' : ModuleStreams} (twins : Twins (OperandPlaces time) m f s s') (file? : Option SymbolFile)
    (id id' : ImageId) :
    Outcome.Alike (CodeDiffers time m (m.mapBodies f)) (s.image m.runtimeVersion (file?.map fun file => ⟨id, file.age, file.path⟩))
      (s'.image m.runtimeVersion (file?.map fun file => ⟨id', file.age, file.path⟩)) := by
  obtain ⟨others, rows, d, run, code, differ⟩ := twins
  rw [others]
  have same (name : String) (data : Bytes) : ((name, data) : String × Bytes).1 = name ∧
      DifferAt (CodePlaces time (m.placed rows) d.il name) data data := ⟨rfl, .refl _ _⟩
  have records : Root.Alike (CodePlaces time (m.placed rows) d.il)
      ((file?.map fun file => (⟨id, file.age, file.path⟩ : CodeViewRecord)).toList.map fun record => (StreamName.codeView, record.build))
      ((file?.map fun file => (⟨id', file.age, file.path⟩ : CodeViewRecord)).toList.map fun record => (StreamName.codeView, record.build)) := by
    cases file? with
    | none => exact .nil
    | some file =>
      exact .cons ⟨rfl, (CodeViewRecord.differ id id' file.age file.path).mono fun i inside => .inr ⟨rfl, inside⟩⟩ .nil
  rw [code] at differ
  have il : DifferAt (CodePlaces time (m.placed rows) d.il StreamName.il) s.il s'.il := by
    rw [code]
    exact differ.mono fun i inside => .inl ⟨rfl, inside⟩
  have streams : Root.Alike (CodePlaces time (m.placed rows) d.il)
      (s.named (file?.map fun file => ⟨id, file.age, file.path⟩))
      (named { s with il := s'.il } (file?.map fun file => ⟨id', file.age, file.path⟩)) :=
    .cons (same _ _) (.cons (same _ _) (.cons (same _ _) (.cons (same _ _) (.cons (same _ _) (.cons ⟨rfl, il⟩ records)))))
  refine (streams.build m.runtimeVersion).answering.mono fun image image' holds => ?_
  exact ⟨rows, d, _, run, by rw [lookup_il, code], holds⟩

end ModuleStreams

theorem SymbolStreams.image_ids (s : SymbolStreams) (id id' : ImageId) :
    Outcome.Alike SymbolsDiffer (s.image id) (s.image id') := by
  have same (name : String) (data : Bytes) : ((name, data) : String × Bytes).1 = name ∧
      DifferAt (SymbolPlaces name) data data := ⟨rfl, .refl _ _⟩
  have pdb := (PdbStream.differ id id' s.entryPoint s.rows).mono fun i inside => (⟨rfl, inside⟩ : SymbolPlaces StreamName.pdb i)
  have streams : Root.Alike SymbolPlaces (s.named id) (s.named id') :=
    .cons ⟨rfl, pdb⟩ (.cons (same _ _) (.cons (same _ _) (.cons (same _ _) .nil)))
  exact (streams.build version).answering.mono fun image image' holds => .inr ⟨_, holds⟩

/-- Images of a woven module at two times. -/
def EmittedModule.DiffersInTime (time : TimeOfDay) (m woven : Module) (e e' : EmittedModule) : Prop :=
  CodeDiffers time m woven e.code e'.code ∧ SymbolsDiffer e.symbols e'.symbols

namespace Module

variable {f' : MethodDef → Option MethodBody}

theorem images_twins {s s' : ModuleStreams} (twins : s.Twins (OperandPlaces time) m f s') (file : SymbolFile)
    (symbols : SymbolStreams) (id id' : ImageId) :
    Outcome.Alike (EmittedModule.DiffersInTime time m (m.mapBodies f)) ((m.mapBodies f).images file s symbols id)
      ((m.mapBodies f').images file s' symbols id') := by
  apply (ModuleStreams.image_twins twins (some file) id id').bind
  intro code code' one
  apply (symbols.image_ids id id').bind
  intro data data' two
  exact .ok ⟨one, two⟩

/-- Modules whose bodies are twins fail alike, or have images that differ where these show the time. -/
theorem emit_twins (digest : Bytes → ImageId) (twins : TwinBodies m (OperandPlaces time) f f')
    (symbols : ∀ d, (f' d).bind (·.symbols?) = (f d).bind (·.symbols?)) :
    Outcome.Alike (EmittedModule.DiffersInTime time m (m.mapBodies f)) ((m.mapBodies f).emit digest) ((m.mapBodies f').emit digest) := by
  apply (ModuleStreams.ofModule_twins twins).bind
  intro s s' alike
  have offsets : s'.offsets = s.offsets := by
    rw [alike.others]
  have shape (f : MethodDef → Option MethodBody) : (m.mapBodies f).symbols? = m.symbols? := rfl
  rw [shape, shape]
  cases m.symbols? with
  | none =>
    apply (ModuleStreams.image_twins alike none .zero .zero).bind
    intro code code' one
    exact .ok ⟨one, .inl ⟨rfl, rfl⟩⟩
  | some file =>
    dsimp only
    rw [offsets, SymbolStreams.ofModule_twins symbols]
    apply (Outcome.Alike.refl _).bind
    rintro streams _ rfl
    apply (images_twins alike file streams .zero .zero).bind
    intro blank blank' _
    exact images_twins alike file streams _ _

end Module

namespace CompiledModule

variable {σ : Type} {digest : Bytes → ImageId} {lookup : Lookup σ} {policy : DeadCodePolicy} {input : CompiledModule} {s : σ}

/-- What weaving a module does once it is read. -/
theorem weave_of_read {m : Module} {s' : σ} (read : Module.read lookup {} input.name input.code input.symbols? s = .ok m s')
    (time : TimeOfDay) : input.weave digest lookup time policy s = match (m.weaveMarkers time policy).emit digest with
      | .ok images => .ok ⟨images, m.weaveReport time⟩ s'
      | .error e => .error e s' := by
  unfold weave
  rw [bind_of_ok read]
  unfold Module.weave
  dsimp only
  cases (m.weaveMarkers time policy).emit digest with
  | ok images => rfl
  | error e => rfl

/-- A module that is woven at two times fails alike, or it answers images that differ where they show the time only.
    The reports differ in the time. -/
theorem weave_shows_time (digest : Bytes → ImageId) (lookup : Lookup σ) (policy : DeadCodePolicy) (input : CompiledModule)
    (time other : TimeOfDay) (s : σ) :
    match input.weave digest lookup time policy s, input.weave digest lookup other policy s with
    | .ok out s₁, .ok out' s₂ => s₂ = s₁ ∧ out.report.time = time ∧ out'.report = { out.report with time := other } ∧
        ∃ m, Module.read lookup {} input.name input.code input.symbols? s = .ok m s₁ ∧
          out.images.DiffersInTime time m (m.weaveMarkers time policy) out'.images
    | .error e s₁, .error e' s₂ => e' = e ∧ s₂ = s₁
    | _, _ => False := by
  cases read : Module.read lookup {} input.name input.code input.symbols? s with
  | error e s₁ =>
    have failed (time : TimeOfDay) : input.weave digest lookup time policy s = .error e s₁ := by
      unfold weave
      exact bind_of_error read _
    rw [failed, failed]
    exact ⟨rfl, rfl⟩
  | ok m s₁ =>
    rw [weave_of_read read, weave_of_read read]
    have alike := Module.emit_twins digest (MethodDef.woven_twins m time other policy) (MethodDef.wovenBody_symbols time other policy)
    rw [← Module.weaveMarkers_eq_mapBodies, ← Module.weaveMarkers_eq_mapBodies] at alike
    generalize (m.weaveMarkers time policy).emit digest = result at alike ⊢
    generalize (m.weaveMarkers other policy).emit digest = result' at alike ⊢
    cases alike with
    | error e => exact ⟨rfl, rfl⟩
    | ok holds => exact ⟨rfl, rfl, rfl, m, rfl, holds⟩

end CompiledModule

end CilWeaver
