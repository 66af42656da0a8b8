import CilWeaver.Proofs.MovedPoints
import CilWeaver.Proofs.OtherEmissions
import CilWeaver.Proofs.ReadContents
import CilWeaver.Proofs.WovenRuns
import CilWeaver.Proofs.WovenTimes

/-!
Emitting a woven module. The bodies of a module that is written have a stored form, and so have their woven forms; what
is left to ask under `strip` is that the literals of the other bodies fit their heap without those of the woven ones.
-/

namespace CilWeaver

open Code Step

/-! The bodies of a module that was written -/

/-- A body that stands in the code has a stored form. -/
theorem MethodBody.Stored.storable {m : Module} {b : MethodBody} {address : Nat} {d : ModuleDraft} (stored : b.Stored address d)
    (checked : b.Checked m) : b.Storable m := by
  obtain ⟨code, bytes, ⟨size, -⟩, encoded, -⟩ := stored
  have few := RawBody.few_of_encode encoded
  have small := RawBody.size_of_encode encoded
  unfold MethodBody.raw at few small
  rw [List.length_map] at few
  exact ⟨⟨checked, few⟩, size ▸ small⟩

/-- What is stored about a method is how its points are encoded. -/
theorem MethodBody.encodedPoints_of_debugs {b : MethodBody} {debug : MethodDebug}
    (debugs : SymbolDraft.Debugs (some b) (some (offsets (promote b.code))) debug) : b.encodedPoints = .ok debug.points := by
  unfold SymbolDraft.Debugs at debugs
  unfold encodedPoints
  rw [Option.bind_some] at debugs
  cases present : b.symbols? with
  | none =>
    simp only [present] at debugs
    rw [debugs]
  | some symbols =>
    simp only [present] at debugs
    dsimp only
    by_cases none : symbols.points.isEmpty = true
    · rw [if_pos none] at debugs ⊢
      rw [debugs]
    · rw [if_neg none] at debugs ⊢
      exact debugs.2

namespace Module

variable {m : Module} {digest : Bytes → ImageId} {e : EmittedModule}

theorem storable_of_emit (emitted : m.emit digest = .ok e) : ∀ method ∈ m.types.flatMap (·.methods),
    method.AllBodies (MethodBody.Storable m) := by
  obtain ⟨rows, d, b, record?, written, -, -⟩ := emittedAs_of_emit emitted
  intro method member body shape
  obtain ⟨t, type, own⟩ := List.mem_flatMap.mp member
  obtain ⟨checked, address, stored⟩ := stored_of_written written t type method own body shape
  exact stored.storable checked

theorem storesPoints_of_emit (emitted : m.emit digest = .ok e) (present : m.symbols?.isSome = true) :
    ∀ method ∈ m.types.flatMap (·.methods), method.AllBodies (MethodBody.StoresPoints m) := by
  intro method member body shape
  refine ⟨(storable_of_emit emitted method member body shape).writable.checked.placed, ?_⟩
  obtain ⟨rows, d, b, record?, written, -, symbols⟩ := emittedAs_of_emit emitted
  cases record? with
  | none =>
    rw [symbols.1] at present
    cases present
  | some record =>
    obtain ⟨-, symbolRows, debugs, draft, builder, written', -⟩ := symbols
    obtain ⟨-, stored, has⟩ := written'.described
    rw [ModuleStreams.offsets_of_describes written.described] at stored
    unfold Module.offsets at stored
    rw [SymbolWriter.zip_methodList, List.forall₂_map_left_iff] at stored
    rw [← ModuleRows.methodList_map_snd] at member
    obtain ⟨owned, listed, rfl⟩ := List.mem_map.mp member
    obtain ⟨debug, among, own⟩ := forall₂_of_mem stored listed
    obtain ⟨row, -, blob⟩ := forall₂_of_mem has among
    rw [shape] at own
    exact ⟨_, MethodBody.encodedPoints_of_debugs own, BlobHeap.storable_of_get _ _ _ (blob.points [])⟩

/-- The literals of the bodies of a module fit their heap, and their indices fit their tokens. -/
def LiteralsFit (m : Module) : Prop :=
  ∃ last, ({} : UserStringHeapBuilder).Adds (bodyLiterals (·.body?) (m.types.flatMap (·.methods))) last

theorem literalsFit_of_ofModule {streams : ModuleStreams} (made : ModuleStreams.ofModule m = .ok streams) : m.LiteralsFit := by
  unfold ModuleStreams.ofModule at made
  cases run : (ModuleRows.ofModule m).run {} with
  | error failure d =>
    rw [run] at made
    cases made
  | ok rows d => exact ⟨d.userStrings, ModuleRows.adds_literals run⟩

theorem literalsFit_of_emit (emitted : m.emit digest = .ok e) : m.LiteralsFit := by
  unfold emit at emitted
  obtain ⟨streams, made, -⟩ := Outcome.bind_eq_ok.mp emitted
  exact literalsFit_of_ofModule made

/-- There is no image out of reach where the literals do not fit. -/
theorem inReach_of_unfit (unfit : ¬ m.LiteralsFit) (absent : m.symbols? = none) (space : m.codeSpace < 2 ^ 32) : m.InReach := by
  have noSymbols : ¬ m.symbols?.isSome = true := by
    rw [absent]
    exact Bool.false_ne_true
  exact ⟨Nat.lt_of_le_of_lt m.codeReach_le space, fun streams made => absurd (literalsFit_of_ofModule made) unfit,
    fun present => absurd present noSymbols, fun present => absurd present noSymbols⟩

end Module

/-! Woven bodies -/

namespace Code

theorem WellFormed.map {i : Instruction} (wellFormed : WellFormed i) (f : Nat → Nat) : WellFormed (i.map f) := by
  obtain ⟨operation, defined, fits⟩ := wellFormed
  refine ⟨operation, defined, ?_⟩
  obtain ⟨opcode, operand⟩ := i
  unfold InstructionAt.map
  generalize operation.operand = kind at fits
  cases operand with
  | target | switch => cases kind <;> exact fits
  | _ => exact fits

theorem Valid.moved {code : List Instruction} (valid : Valid code) (time : TimeOfDay) : Valid (moved time code) := by
  have count : (Code.moved time code).length = code.length + 2 := by
    unfold Code.moved prologue
    rw [List.length_append, List.length_map, List.length_cons, List.length_singleton]
    omega
  constructor
  case wellFormed =>
    intro i member
    rcases List.mem_append.mp member with front | behind
    · simp only [prologue, List.mem_cons, List.not_mem_nil, or_false] at front
      rcases front with rfl | rfl
      · exact ⟨_, rfl, rfl⟩
      · exact ⟨_, rfl, rfl⟩
    · obtain ⟨own, inside, rfl⟩ := List.mem_map.mp behind
      exact (valid.wellFormed own inside).map _
  case targets =>
    intro i member t target
    rw [count]
    rcases List.mem_append.mp member with front | behind
    · simp only [prologue, List.mem_cons, List.not_mem_nil, or_false] at front
      rcases front with rfl | rfl <;> cases target
    · obtain ⟨own, inside, rfl⟩ := List.mem_map.mp behind
      rw [InstructionAt.targets, InstructionAt.map, OperandAt.targets_map] at target
      obtain ⟨before, named, rfl⟩ := List.mem_map.mp target
      exact Nat.add_lt_add_right (valid.targets own inside before named) 2

theorem literals_moved (time : TimeOfDay) (code : List Instruction) : literals (moved time code) = literals code := by
  have each : ∀ i : Instruction, (i.map (· + 2)).operand.literals = i.operand.literals := by
    rintro ⟨opcode, operand⟩
    cases operand <;> rfl
  unfold literals moved
  rw [List.flatMap_append, List.flatMap_map]
  simp only [each]
  rfl

end Code

namespace MethodBody

variable {m : Module} {b : MethodBody}

theorem Named.woven (named : b.Named m) (time : TimeOfDay) (policy : DeadCodePolicy) : (b.woven time policy).Named m := by
  refine ⟨fun i member token same => ?_, fun r member type same => ?_, ?_⟩
  · obtain ⟨own, inside, known⟩ := exists_token_of_woven member same
    exact named.operands own inside token known
  · obtain ⟨own, inside, known⟩ := exists_catch_of_woven member same
    exact named.catches own inside type known
  · cases policy with
    | preserve => exact named.signature
    | strip => exact named.signature

/-- The woven form of a body has a stored form. -/
theorem Storable.woven (storable : b.Storable m) (small : codeSize b.code ≤ 2 ^ 24) (time : TimeOfDay) (policy : DeadCodePolicy) :
    (b.woven time policy).Storable m := by
  obtain ⟨⟨⟨valid, placed, named⟩, few⟩, -⟩ := storable
  have bare : moved time [] = prologue time := List.append_nil _
  have size {code : List Instruction} (valid : Valid code) (small : codeSize code ≤ 2 ^ 24) :
      codeSize (promote (moved time code)) < 2 ^ 32 := by
    have wide := codeSize_widened_le (widened_promote code)
    rw [promote_moved time valid.targets, moved, codeSize_behind]
    omega
  have nothing : Valid [] := ⟨List.forall_mem_nil _, List.forall_mem_nil _⟩
  cases policy with
  | preserve =>
    refine ⟨⟨⟨valid.moved time, placed.woven, named.woven time .preserve⟩, ?_⟩, size valid small⟩
    change 4 + 24 * (b.regions.map (Region.map (· + 2))).length ≤ _
    rwa [List.length_map]
  | strip =>
    have code := nothing.moved time
    have short := size nothing (Nat.zero_le _)
    rw [bare] at code short
    exact ⟨⟨⟨code, placed.woven, named.woven time .strip⟩, show 4 + 24 * 0 ≤ 0x00FFFFFF by decide⟩, short⟩

end MethodBody

namespace Module

variable {m : Module} {digest : Bytes → ImageId} {e : EmittedModule} {time : TimeOfDay} {policy : DeadCodePolicy}

/-- Weaving under `preserve` keeps the literals of a module. -/
theorem bodyLiterals_preserve (methods : List MethodDef) (time : TimeOfDay) :
    bodyLiterals (MethodDef.wovenBody? time .preserve) methods = bodyLiterals (·.body?) methods := by
  refine List.flatMap_congr fun d _ => ?_
  unfold MethodDef.wovenBody?
  by_cases marker : d.isMarker = true
  · rw [if_pos marker]
    dsimp only
    cases d.body? with
    | none => rfl
    | some b => exact literals_moved time b.code
  · rw [if_neg marker]

theorem literals_mapBodies (m : Module) (f : MethodDef → Option MethodBody) :
    bodyLiterals (·.body?) ((m.mapBodies f).types.flatMap (·.methods)) = bodyLiterals f (m.types.flatMap (·.methods)) := by
  unfold bodyLiterals mapBodies TypeDef.mapBodies
  rw [List.flatMap_map, List.flatMap_assoc, List.flatMap_assoc]
  simp only [List.flatMap_map]
  rfl

/-- The bodies of a woven module have a stored form if those of the module do. -/
theorem storesBodies_woven (emitted : m.emit digest = .ok e)
    (small : ∀ method ∈ m.types.flatMap (·.methods), method.name = markerName → method.AllBodies fun b => codeSize b.code ≤ 2 ^ 24)
    (fit : (m.weaveMarkers time policy).LiteralsFit) : m.StoresBodies (MethodDef.wovenBody? time policy) := by
  have each {p : MethodBody → Prop} (own : ∀ method ∈ m.types.flatMap (·.methods), method.AllBodies p)
      (woven : ∀ b, p b → b.Storable m → codeSize b.code ≤ 2 ^ 24 → p (b.woven time policy)) :
      ∀ method ∈ m.types.flatMap (·.methods), ∀ b, method.wovenBody? time policy = some b → p b := by
    intro method member b body
    unfold MethodDef.wovenBody? MethodDef.isMarker at body
    by_cases marker : method.name = markerName
    · rw [if_pos (beq_iff_eq.mpr marker)] at body
      obtain ⟨before, shape, rfl⟩ := Option.map_eq_some_iff.mp body
      exact woven before (own method member before shape) (storable_of_emit emitted method member before shape)
        (small method member marker before shape)
    · rw [if_neg (by rwa [beq_iff_eq])] at body
      exact own method member b body
  refine ⟨?_, fun present => ?_, ?_⟩
  · exact each (storable_of_emit emitted) fun b storable _ short => storable.woven short time policy
  · exact each (storesPoints_of_emit emitted present) fun b stores storable short =>
      stores.woven storable.writable.checked.valid short time policy
  · unfold LiteralsFit at fit
    rwa [weaveMarkers_eq_mapBodies, literals_mapBodies] at fit

/-- A module whose markers are short is written again once it is woven, whose images are within reach. Under `strip` the
    literals that are left have to fit their heap. Under `preserve` the same branches are promoted. -/
theorem woven_emits (emitted : m.emit digest = .ok e)
    (small : ∀ t ∈ m.types, ∀ d ∈ t.methods, d.name = markerName → d.AllBodies fun b =>
      (b.code.map Instruction.size).sum ≤ defaultMaxBodySize)
    (time : TimeOfDay) (policy : DeadCodePolicy) (reach : (m.weave time policy).1.InReach) :
    ((∃ e', (m.weave time policy).1.emit digest = .ok e') ↔ (policy = .strip → (m.weave time policy).1.LiteralsFit)) ∧
    ∀ t ∈ m.types, ∀ d ∈ t.methods, d.AllBodies fun b =>
      promote (b.woven time .preserve).code = prologue time ++ (promote b.code).map (InstructionAt.map (· + 2)) := by
  have bounds : ∀ method ∈ m.types.flatMap (·.methods), method.name = markerName → method.AllBodies fun b =>
      codeSize b.code ≤ 2 ^ 24 := by
    intro method member marker b body
    obtain ⟨t, type, own⟩ := List.mem_flatMap.mp member
    exact small t type method own marker b body
  constructor
  · constructor
    · rintro ⟨e', emitted'⟩ -
      exact literalsFit_of_emit emitted'
    · intro fit
      have fits : (m.weaveMarkers time policy).LiteralsFit := by
        cases policy with
        | preserve =>
          have own := literalsFit_of_emit emitted
          unfold LiteralsFit at own ⊢
          rwa [weaveMarkers_eq_mapBodies, literals_mapBodies, bodyLiterals_preserve]
        | strip => exact fit rfl
      change (m.weaveMarkers time policy).InReach at reach
      change ∃ e', (m.weaveMarkers time policy).emit digest = .ok e'
      have stores := storesBodies_woven emitted bounds fits
      rw [weaveMarkers_eq_mapBodies] at reach ⊢
      exact emit_others emitted stores reach
  · intro t type d own b body
    have storable := storable_of_emit emitted d (List.mem_flatMap.mpr ⟨t, type, own⟩) b body
    exact promote_moved time storable.writable.checked.valid.targets

end Module

/-- A marker with a branch and points. -/
theorem Module.woven_emits_sample : ∃ e e', Sample.clock.emit (fun _ => .zero) = .ok e ∧
    (Sample.clock.weave Sample.afternoon .preserve).1.emit (fun _ => .zero) = .ok e' := by
  obtain ⟨e, emitted, -⟩ : ∃ e, Sample.clock.emit (fun _ => .zero) = .ok e ∧ true = true :=
    Outcome.exists_of_any (by decide +kernel)
  have sizes : Sample.clock.types.all (fun t => t.methods.all fun d => d.body?.all fun b =>
      decide ((b.code.map Instruction.size).sum ≤ defaultMaxBodySize)) = true := by decide +kernel
  have small : ∀ t ∈ Sample.clock.types, ∀ d ∈ t.methods, d.name = markerName → d.AllBodies fun b =>
      (b.code.map Instruction.size).sum ≤ defaultMaxBodySize := by
    intro t type d member _ b body
    have own := List.all_eq_true.mp (List.all_eq_true.mp sizes t type) d member
    rw [body] at own
    exact of_decide_eq_true own
  have reach : (Sample.clock.weave Sample.afternoon .preserve).1.InReach := by
    refine inReach_of_zero (by decide +kernel) (by decide +kernel) ?_ ?_
    · obtain ⟨streams, made, size⟩ : ∃ streams, ModuleStreams.ofModule (Sample.clock.weave Sample.afternoon .preserve).1 = .ok streams ∧
          decide (Root.imageSize "v4" (streams.named (some ⟨.zero, 1, "a.pdb"⟩)) < 2 ^ 32) = true :=
        Outcome.exists_of_any (by decide +kernel)
      exact ⟨streams, made, of_decide_eq_true size⟩
    · obtain ⟨symbols, made, size⟩ : ∃ symbols, SymbolStreams.ofModule (Sample.clock.weave Sample.afternoon .preserve).1
            (Sample.clock.weave Sample.afternoon .preserve).1.offsets = .ok symbols ∧
          decide (Root.imageSize SymbolStreams.version (symbols.named .zero) < 2 ^ 32) = true :=
        Outcome.exists_of_any (by decide +kernel)
      exact ⟨symbols, made, of_decide_eq_true size⟩
  obtain ⟨e', emitted'⟩ := (woven_emits emitted small Sample.afternoon .preserve reach).1.mpr fun strip => by cases strip
  exact ⟨e, e', emitted, emitted'⟩

namespace Sample

def ldstr (text : String) : Instruction := ⟨⟨0x72⟩, .string text⟩

/-- A marker, and a method whose second literal is the one of the marker. -/
def sharing (long : String) : Module :=
  { name := "m"
    types := [{ flags := 0, namespaceName := "", name := "T", baseType := .null, fields := []
                methods := [marker (some { code := [ldstr "a", .ret] }),
                  { marker (some { code := [ldstr long, ldstr "a", .ret] }) with name := "n" }] }] }

/-- Between the two uses of the shared literal stands a literal of the given length. -/
def shared (length : Nat) : Module := sharing (String.ofList (List.replicate length 'b'))

/-- The methods of these modules without their bodies. -/
def bodiless : Module :=
  { name := "m"
    types := [{ flags := 0, namespaceName := "", name := "T", baseType := .null, fields := []
                methods := [marker none, { marker none with name := "n" }] }] }

def sharedBody (long : String) (d : MethodDef) : Option MethodBody :=
  some { code := if d.isMarker then [ldstr "a", .ret] else [ldstr long, ldstr "a", .ret] }

theorem sharing_eq (long : String) : sharing long = bodiless.mapBodies (sharedBody long) := rfl

/-- A body that only loads literals. -/
def loads (texts : List String) : MethodBody := { code := texts.map ldstr ++ [.ret] }

theorem codeSize_loads (texts : List String) : codeSize (loads texts).code = 5 * texts.length + 1 := by
  have each : codeSize (texts.map ldstr) = 5 * texts.length := by
    induction texts with
    | nil => rfl
    | cons text texts ih =>
      have own : (ldstr text).size = 5 := rfl
      rw [List.map_cons, codeSize_cons, ih, own, List.length_cons]
      omega
  change codeSize (texts.map ldstr ++ [.ret]) = _
  rw [codeSize_append, each]
  rfl

theorem storable_loads (m : Module) {texts : List String} (few : texts.length < 2 ^ 24) : (loads texts).Storable m := by
  have each : ∀ i ∈ (loads texts).code, WellFormed i ∧ i.targets = [] ∧ i.operand.token? = none := by
    intro i member
    rcases List.mem_append.mp member with member | member
    · obtain ⟨text, -, rfl⟩ := List.mem_map.mp member
      exact ⟨⟨_, rfl, rfl⟩, rfl, rfl⟩
    · rw [List.mem_singleton.mp member]
      exact ⟨⟨_, rfl, rfl⟩, rfl, rfl⟩
  have valid : Valid (loads texts).code := by
    refine ⟨fun i member => (each i member).1, fun i member t target => ?_⟩
    rw [(each i member).2.1] at target
    cases target
  have placed : (loads texts).Placed m.documents.length := ⟨List.forall_mem_nil _, fun _ impossible => by cases impossible⟩
  have named : (loads texts).Named m := by
    refine ⟨fun i member token same => ?_, List.forall_mem_nil _, .inl rfl⟩
    rw [(each i member).2.2] at same
    cases same
  have size := codeSize_widened_le (widened_promote (loads texts).code)
  rw [codeSize_loads] at size
  exact ⟨⟨⟨valid, placed, named⟩, show 4 + 24 * 0 ≤ 0x00FFFFFF by decide⟩, by omega⟩

theorem lookup_long {long : String} (other : long ≠ "a") {entries : List (String × Nat)} (empty : entries = [])
    (index : Nat) : (entries ++ [(long, index)]).lookup "a" = none := by
  subst empty
  have different : ("a" == long) = false := beq_eq_false_iff_ne.mpr other.symm
  rw [List.nil_append, List.lookup_cons, different]
  rfl

theorem adds_shared {long : String} (other : long ≠ "a") (short : 2 * (Utf16.encode long.toList).length + 1 < 2 ^ 29) :
    ∃ last, ({} : UserStringHeapBuilder).Adds ["a", long, "a"] last ∧
      last.data.length ≤ 10 + 2 * (Utf16.encode long.toList).length := by
  let first : UserStringHeapBuilder := ⟨[0, 3, 97, 0, 0], [("a", 1)]⟩
  have one : UserStringHeapBuilder.add "a" {} = .ok 1 first := rfl
  have new : first.entries.lookup long = none := by
    have different : (long == "a") = false := beq_eq_false_iff_ne.mpr other
    rw [List.lookup_cons, different]
    rfl
  obtain ⟨last, two, entries, -, size⟩ := UserStringHeapBuilder.add_new new (by decide) short
  have known : last.entries.lookup "a" = some 1 := by
    rw [entries]
    rfl
  refine ⟨last, .cons one (by decide) (.cons two (by decide) ?_), ?_⟩
  · exact .cons (UserStringHeapBuilder.add_old known) (by decide) (UserStringHeapBuilder.adds_nil last)
  · change last.data.length ≤ 5 + _ + 5 at size
    omega

theorem not_adds_stripped {long : String} (other : long ≠ "a") (short : 2 * (Utf16.encode long.toList).length + 1 < 2 ^ 29)
    (large : 0xFFFFFF < 2 * (Utf16.encode long.toList).length) (last : UserStringHeapBuilder) :
    ¬ ({} : UserStringHeapBuilder).Adds [long, "a"] last := by
  rintro ⟨indices, run, -⟩
  obtain ⟨middle, one, entries, size, -⟩ := @UserStringHeapBuilder.add_new {} long rfl (by decide) short
  have new : middle.entries.lookup "a" = none := by
    rw [entries]
    exact lookup_long other rfl _
  rw [List.mapM_cons, bind_of_ok one, List.mapM_cons, bind_apply, bind_apply,
    UserStringHeapBuilder.add_far new (by unfold UserStringHeapBuilder.maxIndex; omega)] at run
  cases run

theorem space_le (b : MethodBody) : b.space ≤ 22 + 3 * codeSize b.code + 24 * b.regions.length := by
  have size := codeSize_widened_le (widened_promote b.code)
  have header : RawBody.fatHeaderSize = 12 := rfl
  unfold MethodBody.space MethodBody.storedSpace
  omega

theorem codeSpace_sharing (long : String) : (bodiless.mapBodies (sharedBody long)).codeSpace ≤ 200 := by
  have code : (bodiless.mapBodies (sharedBody long)).codeSpace =
      4 + ((loads ["a"]).space + ((loads [long, "a"]).space + 0) + 0) := rfl
  have first := space_le (loads ["a"])
  have second := space_le (loads [long, "a"])
  rw [codeSize_loads] at first second
  change _ ≤ 22 + 3 * (5 * 1 + 1) + 24 * 0 at first
  change _ ≤ 22 + 3 * (5 * 2 + 1) + 24 * 0 at second
  omega

theorem storable_sharing (long : String) : ∀ method ∈ bodiless.types.flatMap (·.methods), ∀ b, sharedBody long method = some b →
    b.Storable bodiless := by
  intro method _ b body
  unfold sharedBody at body
  by_cases marker : method.isMarker = true
  · rw [if_pos marker] at body
    cases body
    exact @storable_loads bodiless ["a"] (show 1 < 2 ^ 24 by decide)
  · rw [if_neg marker] at body
    cases body
    exact @storable_loads bodiless [long, "a"] (show 2 < 2 ^ 24 by decide)

theorem emit_sharing {long : String} (other : long ≠ "a") (short : 2 * (Utf16.encode long.toList).length + 1 < 2 ^ 29) :
    ∃ e, (sharing long).emit (fun _ => .zero) = .ok e := by
  obtain ⟨e, emitted, -⟩ : ∃ e, bodiless.emit (fun _ => .zero) = .ok e ∧ true = true :=
    Outcome.exists_of_any (by decide +kernel)
  obtain ⟨streams, made, small⟩ : ∃ streams, ModuleStreams.ofModule bodiless = .ok streams ∧
      decide (streams.strings.length + streams.guids.length + streams.blobs.length ≤ 100) = true :=
    Outcome.exists_of_any (by decide +kernel)
  obtain ⟨last, adds, size⟩ := adds_shared other short
  have version : Root.versionFieldSize bodiless.runtimeVersion ≤ 16 := by decide
  have tables : tableSpace (Table.ofModule.map fun t => (t, bodiless.rows t)) ≤ 1000 := by decide
  have code := codeSpace_sharing long
  rw [decide_eq_true_eq] at small
  have reach := Module.inReach_others made rfl (storable_sharing long) adds (by omega)
  rw [sharing_eq]
  exact Module.emit_others emitted ⟨storable_sharing long, (fun present => by cases present), last, adds⟩ reach

/-- Without the marker the shared literal comes behind the long one, where no token reaches. -/
theorem unfit_stripped {long : String} (other : long ≠ "a") (short : 2 * (Utf16.encode long.toList).length + 1 < 2 ^ 29)
    (large : 0xFFFFFF < 2 * (Utf16.encode long.toList).length) : ¬ ((sharing long).weaveMarkers .midnight .strip).LiteralsFit := by
  have left : bodyLiterals (·.body?) (((sharing long).weaveMarkers .midnight .strip).types.flatMap (·.methods)) = [long, "a"] := rfl
  rintro ⟨last, adds⟩
  rw [left] at adds
  exact not_adds_stripped other short large last adds

theorem inReach_stripped {long : String} (unfit : ¬ ((sharing long).weaveMarkers .midnight .strip).LiteralsFit) :
    ((sharing long).weaveMarkers .midnight .strip).InReach := by
  refine Module.inReach_of_unfit unfit rfl ?_
  have code : ((sharing long).weaveMarkers .midnight .strip).codeSpace =
      4 + (((loads ["a"]).woven .midnight .strip).space + ((loads [long, "a"]).space + 0) + 0) := rfl
  have first := space_le ((loads ["a"]).woven .midnight .strip)
  have second := space_le (loads [long, "a"])
  rw [codeSize_loads] at second
  change _ ≤ 22 + 3 * 6 + 24 * 0 at first
  change _ ≤ 22 + 3 * (5 * 2 + 1) + 24 * 0 at second
  omega

theorem small_sharing (long : String) : ∀ t ∈ (sharing long).types, ∀ d ∈ t.methods, d.name = markerName → d.AllBodies fun b =>
    (b.code.map Instruction.size).sum ≤ Module.defaultMaxBodySize := by
  intro t type d member name b body
  rw [List.mem_singleton.mp type] at member
  rcases List.mem_cons.mp member with rfl | member
  · cases body
    exact (by decide : 6 ≤ Module.defaultMaxBodySize)
  · rw [List.mem_singleton.mp member] at name
    exact absurd name (show ¬ "n" = markerName by decide)

theorem length_encode_replicate (n : Nat) : (Utf16.encode (String.ofList (List.replicate n 'b')).toList).length = n := by
  rw [String.toList_ofList]
  unfold Utf16.encode
  rw [List.length_flatMap, List.map_replicate, List.sum_replicate]
  exact Nat.mul_one n

theorem replicate_ne {n : Nat} (long : 1 < n) : String.ofList (List.replicate n 'b') ≠ "a" := by
  intro same
  have lengths := congrArg (fun text => text.toList.length) same
  rw [String.toList_ofList, List.length_replicate] at lengths
  change n = 1 at lengths
  omega

end Sample

/-- A module that is written and whose images are within reach, but that is not written any more under `strip`. -/
theorem Module.strip_unshares_literal :
    (∃ e, (Sample.shared (2 ^ 23)).emit (fun _ => .zero) = .ok e) ∧
    (∀ t ∈ (Sample.shared (2 ^ 23)).types, ∀ d ∈ t.methods, d.name = markerName → d.AllBodies fun b =>
      (b.code.map Instruction.size).sum ≤ defaultMaxBodySize) ∧
    ((Sample.shared (2 ^ 23)).weave .midnight .strip).1.InReach ∧
    ¬ ∃ e, ((Sample.shared (2 ^ 23)).weave .midnight .strip).1.emit (fun _ => .zero) = .ok e := by
  have size := Sample.length_encode_replicate (2 ^ 23)
  have other := @Sample.replicate_ne (2 ^ 23) (by decide)
  have unfit := Sample.unfit_stripped other (by rw [size]; decide) (by rw [size]; decide)
  refine ⟨Sample.emit_sharing other (by rw [size]; decide), Sample.small_sharing _, Sample.inReach_stripped unfit, ?_⟩
  rintro ⟨e, emitted⟩
  exact unfit (literalsFit_of_emit emitted)

end CilWeaver
