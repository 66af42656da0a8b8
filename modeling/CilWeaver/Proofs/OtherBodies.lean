import CilWeaver.Proofs.ParallelWriters
import CilWeaver.Proofs.WritableImages

/-!
A module that is written can be written with other bodies. These have their own literals and their own code, and
everything else comes out as it did.
-/

namespace CilWeaver

open Code Step

/-- What a writer asks of a body: that it is a body of the module, and that its code and its clauses have a stored form. -/
structure MethodBody.Storable (m : Module) (b : MethodBody) : Prop where
  writable : b.Writable m
  size : codeSize (promote b.code) < 2 ^ 32

/-- The literals of some methods with the given bodies, in the order in which they are written. -/
def bodyLiterals (f : MethodDef → Option MethodBody) (methods : List MethodDef) : List String :=
  methods.flatMap fun d => (f d).elim [] fun b => literals b.code

theorem bodyLiterals_cons (f : MethodDef → Option MethodBody) (d : MethodDef) (methods : List MethodDef) :
    bodyLiterals f (d :: methods) = ((f d).elim [] fun b => literals b.code) ++ bodyLiterals f methods := List.flatMap_cons

namespace UserStringHeapBuilder

/-- Literals that are added one after the other, and whose indices fit their tokens. -/
def Adds (b : UserStringHeapBuilder) (texts : List String) (b' : UserStringHeapBuilder) : Prop :=
  ∃ indices, texts.mapM add b = .ok indices b' ∧ ∀ index ∈ indices, index ≤ 0xFFFFFF

theorem adds_append {b b' : UserStringHeapBuilder} {front back : List String} :
    b.Adds (front ++ back) b' ↔ ∃ middle, b.Adds front middle ∧ middle.Adds back b' := by
  constructor
  · rintro ⟨indices, run, small⟩
    obtain ⟨first, middle, others, one, two, rfl⟩ := mapM_append_eq_ok.mp run
    obtain ⟨smallFirst, smallOthers⟩ := List.forall_mem_append.mp small
    exact ⟨middle, ⟨first, one, smallFirst⟩, others, two, smallOthers⟩
  · rintro ⟨middle, ⟨first, one, smallFirst⟩, others, two, smallOthers⟩
    exact ⟨first ++ others, mapM_append_eq_ok.mpr ⟨first, middle, others, one, two, rfl⟩,
      List.forall_mem_append.mpr ⟨smallFirst, smallOthers⟩⟩

theorem adds_nil (b : UserStringHeapBuilder) : b.Adds [] b := ⟨[], rfl, List.forall_mem_nil _⟩

theorem Adds.eq_of_nil {b b' : UserStringHeapBuilder} (adds : b.Adds [] b') : b' = b := by
  obtain ⟨indices, run, -⟩ := adds
  exact (pure_eq_ok.mp run).2.symm

theorem Adds.cons {b middle b' : UserStringHeapBuilder} {text : String} {texts : List String} {index : Nat}
    (first : add text b = .ok index middle) (small : index ≤ 0xFFFFFF) (others : middle.Adds texts b') :
    b.Adds (text :: texts) b' := by
  obtain ⟨indices, run, rest⟩ := others
  refine ⟨index :: indices, ?_, List.forall_mem_cons.mpr ⟨small, rest⟩⟩
  rw [List.mapM_cons, bind_of_ok first, bind_of_ok run]
  rfl

theorem add_old {b : UserStringHeapBuilder} {text : String} {index : Nat} (found : b.entries.lookup text = some index) :
    add text b = .ok index b := by
  unfold add
  rw [bind_of_ok (show (get : EStateM Error _ _) b = .ok b b from rfl), found]
  rfl

/-- A literal that is new to its heap is put behind the others. -/
theorem add_new {b : UserStringHeapBuilder} {text : String} (new : b.entries.lookup text = none)
    (near : b.data.length ≤ maxIndex) (short : 2 * (Utf16.encode text.toList).length + 1 < 2 ^ 29) :
    ∃ b', add text b = .ok b.data.length b' ∧ b'.entries = b.entries ++ [(text, b.data.length)] ∧
      b.data.length + 2 * (Utf16.encode text.toList).length + 2 ≤ b'.data.length ∧
      b'.data.length ≤ b.data.length + 2 * (Utf16.encode text.toList).length + 5 := by
  obtain ⟨header, written⟩ := exists_compressed short
  have some := List.length_pos_iff.mpr (compressed_ne_nil written)
  have few := length_compressed_le written
  unfold add
  rw [bind_of_ok (show (get : EStateM Error _ _) b = .ok b b from rfl), new]
  dsimp only
  rw [if_neg (Nat.not_lt.mpr near), written]
  refine ⟨_, rfl, rfl, ?_, ?_⟩
  all_goals
    simp only [List.length_append, length_flatMap_u16Bytes, List.length_singleton]
    omega

/-- A literal that is new to its heap is refused behind the last index of a token. -/
theorem add_far {b : UserStringHeapBuilder} {text : String} (new : b.entries.lookup text = none) (far : maxIndex < b.data.length) :
    add text b = .error (.malformed (.heapTooLarge .userStrings)) b := by
  unfold add
  rw [bind_of_ok (show (get : EStateM Error _ _) b = .ok b b from rfl), new]
  dsimp only
  rw [if_pos far]
  rfl

end UserStringHeapBuilder

namespace ModuleWriter

open UserStringHeapBuilder

/-- Literals are added to their heap, and to nothing else. -/
theorem mapM_addLiteral (texts : List String) (d : ModuleDraft) : texts.mapM addLiteral d =
    match texts.mapM UserStringHeapBuilder.add d.userStrings with
    | .ok indices userStrings => .ok indices { d with userStrings }
    | .error e userStrings => .error e { d with userStrings } := by
  induction texts generalizing d with
  | nil => rfl
  | cons text texts ih =>
    rw [List.mapM_cons, List.mapM_cons, bind_apply, bind_apply]
    unfold addLiteral onPart
    cases UserStringHeapBuilder.add text d.userStrings with
    | error e s => rfl
    | ok index s =>
      have others := ih { d with userStrings := s }
      unfold addLiteral onPart at others
      dsimp only at others ⊢
      rw [bind_apply, bind_apply, others]
      cases texts.mapM UserStringHeapBuilder.add s with
      | error e s => rfl
      | ok indices s => rfl

variable {m : Module} {context : String} {b : MethodBody} {d s : ModuleDraft}

theorem encode_of_adds {code : List Instruction} (valid : Valid code) {userStrings : UserStringHeapBuilder}
    (adds : d.userStrings.Adds (literals code) userStrings) :
    ∃ e, Code.encode addLiteral context code d = .ok e { d with userStrings } ∧ e.bytes.length = codeSize (promote code) := by
  obtain ⟨indices, found, small⟩ := adds
  have run := mapM_addLiteral (literals code) d
  rw [found] at run
  exact ⟨_, encode_eq_ok.mpr ⟨valid, indices, run, small, rfl⟩, length_codeBytes valid.promote.wellFormed _ 0 indices⟩

theorem adds_of_encode {code : List Instruction} {e : EncodedBody} (run : Code.encode addLiteral context code d = .ok e s) :
    ∃ userStrings, d.userStrings.Adds (literals code) userStrings ∧ s = { d with userStrings } := by
  obtain ⟨-, indices, found, small, -⟩ := encode_eq_ok.mp run
  rw [mapM_addLiteral] at found
  cases added : (literals code).mapM UserStringHeapBuilder.add d.userStrings with
  | error e s =>
    rw [added] at found
    cases found
  | ok indices' userStrings =>
    rw [added] at found
    cases found
    exact ⟨userStrings, ⟨indices, added, small⟩, rfl⟩

theorem padded_apply {α : Type} (w : ModuleWriter α) (d : ModuleDraft) :
    ((modify fun d : ModuleDraft => { d with il := padTo 4 d.il }) >>= fun _ => w : ModuleWriter α) d =
      w { d with il := padTo 4 d.il } := rfl

/-- A body whose literals fit is written, unless the code has no room left for its address. -/
theorem addMethodBody_of_adds (storable : b.Storable m) {userStrings : UserStringHeapBuilder}
    (adds : d.userStrings.Adds (literals b.code) userStrings) :
    (∃ e s, addMethodBody m context (some b) d = .error e s ∧ 2 ^ 32 ≤ s.il.length) ∨
      ∃ a il, addMethodBody m context (some b) d = .ok a { d with userStrings, il } := by
  obtain ⟨⟨⟨valid, placed, named⟩, few⟩, size⟩ := storable
  unfold addMethodBody
  simp only [padded_apply]
  rw [bind_of_ok (show (get : ModuleWriter ModuleDraft) { d with il := padTo 4 d.il } = .ok _ _ from rfl)]
  dsimp only
  by_cases far : 2 ^ 32 ≤ (padTo 4 d.il).length
  · rw [if_pos far]
    exact .inl ⟨_, _, rfl, far⟩
  · obtain ⟨e, run, length⟩ := @encode_of_adds context { d with il := padTo 4 d.il } b.code valid userStrings adds
    obtain ⟨bytes, written, -⟩ := @RawBody.exists_encode (rawOf b e) (by rw [rawOf, List.length_map]; exact few)
      (by rw [rawOf, length]; exact size) (padTo 4 d.il).length
    have body : addBody m context b { d with il := padTo 4 d.il } =
        .ok e.offsets { d with userStrings, il := padTo 4 d.il ++ bytes } := by
      rw [addBody_eq, MethodBody.checkIndices_eq_ok.mpr placed, MethodBody.bodyTokenCheck_eq_ok.mpr named]
      change (Code.encode addLiteral context b.code >>= store context b) _ = _
      rw [bind_of_ok run, store_apply, written]
    rw [if_neg far, bind_of_ok body]
    exact .inr ⟨_, _, rfl⟩

theorem check_eq_ok {result : Except EmissionFault Unit} (run : check context result d = .ok () s) : result = .ok () ∧ s = d := by
  unfold check at run
  cases result with
  | ok => exact ⟨rfl, (pure_eq_ok.mp run).2.symm⟩
  | error fault => exact absurd run throw_ne_ok

/-- A body leaves its literals and its code in the draft. -/
theorem adds_of_addMethodBody {a : UInt32 × Option (List Nat)} (run : addMethodBody m context (some b) d = .ok a s) :
    ∃ userStrings il, d.userStrings.Adds (literals b.code) userStrings ∧ s = { d with userStrings, il } := by
  unfold addMethodBody at run
  simp only [padded_apply] at run
  rw [bind_of_ok (show (get : ModuleWriter ModuleDraft) { d with il := padTo 4 d.il } = .ok _ _ from rfl)] at run
  dsimp only at run
  by_cases far : 2 ^ 32 ≤ (padTo 4 d.il).length
  · rw [if_pos far] at run
    exact absurd run throw_ne_ok
  · rw [if_neg far] at run
    obtain ⟨offsets, s', body, run⟩ := bind_eq_ok.mp run
    obtain ⟨-, rfl⟩ := pure_eq_ok.mp run
    rw [addBody_eq] at body
    obtain ⟨⟨⟩, s₁, placed, body⟩ := bind_eq_ok.mp body
    obtain ⟨⟨⟩, s₂, named, body⟩ := bind_eq_ok.mp body
    obtain ⟨e, s₃, encoded, body⟩ := bind_eq_ok.mp body
    obtain ⟨-, rfl⟩ := check_eq_ok placed
    obtain ⟨-, rfl⟩ := check_eq_ok named
    obtain ⟨userStrings, adds, rfl⟩ := adds_of_encode encoded
    rw [store_apply] at body
    dsimp only at body
    cases written : (rawOf b e).encode (padTo 4 d.il).length with
    | error defect =>
      rw [written] at body
      cases body
    | ok bytes =>
      rw [written] at body
      cases body
      exact ⟨userStrings, _, adds, rfl⟩

theorem part_of_addMethodBody {body? : Option MethodBody} {a : UInt32 × Option (List Nat)}
    (run : addMethodBody m context body? d = .ok a s) : s = d.withPart s.part := by
  cases body? with
  | none =>
    cases run
    rfl
  | some b =>
    obtain ⟨userStrings, il, -, rfl⟩ := adds_of_addMethodBody run
    rfl

end ModuleWriter

variable {m : Module} {f f' : MethodDef → Option MethodBody}

/-- Drafts that go together while other bodies are written: those that are left can be written, unless the code
    gets out of reach, and they leave the given literals. -/
def Pairing.others (m : Module) (f' : MethodDef → Option MethodBody) (last : UserStringHeapBuilder) : Pairing BodyProgress ModuleDraft :=
  .ofParts (fun g _ x' => (∀ d ∈ g.pending, ∀ b, f' d = some b → b.Storable m) ∧
    x'.userStrings.Adds (bodyLiterals f' g.pending) last) False (fun _ s => 2 ^ 32 ≤ s.il.length) fun impossible => impossible.elim

theorem others_match (m : Module) (f f' : MethodDef → Option MethodBody) (last : UserStringHeapBuilder) :
    BodiesMatch (.others m f' last) m f f' fun _ _ => True := by
  intro context d pending done
  refine ⟨fun {x x' a s} related run => ?_, fun impossible => impossible.elim⟩
  obtain ⟨shape, storable, adds⟩ := related
  obtain ⟨own, rest⟩ := List.forall_mem_cons.mp storable
  rw [bodyLiterals_cons] at adds
  obtain ⟨middle, first, others⟩ := UserStringHeapBuilder.adds_append.mp adds
  have kept := ModuleWriter.part_of_addMethodBody run
  cases body : f' d with
  | none =>
    rw [body] at first
    obtain rfl := first.eq_of_nil
    refine .inr ⟨_, x', _, rfl, ⟨trivial, rfl⟩, ?_, rest, others⟩
    rw [shape, kept]
    rfl
  | some b =>
    rw [body] at first
    rcases @ModuleWriter.addMethodBody_of_adds m context b x' (own b body) _ first with stopped | ⟨a', il, run'⟩
    · exact .inl stopped
    · refine .inr ⟨a', _, _, run', ⟨trivial, rfl⟩, ?_, rest, others⟩
      rw [kept]
      rw [shape]
      rfl

/-- Drafts that have the literals of the methods that are written. -/
def Pairing.literals (f : MethodDef → Option MethodBody) : Pairing BodyProgress ModuleDraft :=
  .ofParts (fun g x x' => x' = x ∧ ({} : UserStringHeapBuilder).Adds (bodyLiterals f (g.done.map (·.1))) x.userStrings) True
    (fun _ _ => False) fun _ _ _ => id

theorem literals_match (m : Module) (f : MethodDef → Option MethodBody) :
    BodiesMatch (.literals f) m f f fun _ _ => True := by
  have same {x x' : ModuleDraft} (shape : x' = x.withPart x'.part) (part : x'.part = x.part) : x' = x := by
    rw [part] at shape
    exact shape
  intro context d pending done
  refine ⟨fun {x x' a s} related run => ?_, fun _ {x x' e s} related run => ?_⟩
  · obtain ⟨shape, part, adds⟩ := related
    obtain rfl := same shape part
    refine .inr ⟨a, s, _, run, ⟨trivial, rfl⟩, rfl, rfl, ?_⟩
    rw [List.map_append, bodyLiterals, List.flatMap_append]
    refine UserStringHeapBuilder.adds_append.mpr ⟨_, adds, ?_⟩
    cases body : f d with
    | none =>
      rw [body] at run
      cases run
      simp only [List.map_cons, List.map_nil, List.flatMap_cons, List.flatMap_nil, body, Option.elim_none, List.append_nil]
      exact UserStringHeapBuilder.adds_nil _
    | some b =>
      rw [body] at run
      obtain ⟨userStrings, il, added, rfl⟩ := ModuleWriter.adds_of_addMethodBody run
      simp only [List.map_cons, List.map_nil, List.flatMap_cons, List.flatMap_nil, body, Option.elim_some, List.append_nil]
      exact added
  · obtain ⟨shape, part, -⟩ := related
    obtain rfl := same shape part
    exact ⟨s, run⟩

namespace ModuleRows

theorem mapBodies_self (m : Module) : m.mapBodies (·.body?) = m := by
  have methods : MethodDef.withBody (·.body?) = id := rfl
  have types : TypeDef.mapBodies (·.body?) = id := by
    funext t
    unfold TypeDef.mapBodies
    rw [methods, List.map_id]
    rfl
  unfold Module.mapBodies
  rw [types, List.map_id]

variable {rows : ModuleRows} {d : ModuleDraft}

/-- The heap of literals of a module that is written takes the literals of its bodies one after the other. -/
theorem adds_literals (run : (ofModule m).run {} = .ok rows d) :
    ({} : UserStringHeapBuilder).Adds (bodyLiterals (·.body?) (m.types.flatMap (·.methods))) d.userStrings := by
  have steps := ofModule_alike (literals_match m (·.body?))
  rw [mapBodies_self] at steps
  have start : (Pairing.literals (·.body?)).Related ⟨m.types.flatMap (·.methods), []⟩ {} {} :=
    ⟨rfl, rfl, UserStringHeapBuilder.adds_nil _⟩
  rcases steps.answers start run with ⟨_, _, -, stops⟩ | ⟨rows', d', _, -, ⟨alike, rfl⟩, -, -, adds⟩
  · exact stops.elim
  · obtain ⟨-, -, describes⟩ := writes_ofModule m {} rows d ModuleDraft.sound_empty run
    have count := (describes d (ModuleDraft.Grows.refl d)).methods.length_eq
    rw [List.map_fst_zip (by rw [ModuleWriter.addresses, List.length_map, count])] at adds
    exact adds

/-- A module is written with other bodies that have a stored form, unless the code gets out of reach. -/
theorem exists_others (run : (ofModule m).run {} = .ok rows d)
    (storable : ∀ method ∈ m.types.flatMap (·.methods), ∀ b, f' method = some b → b.Storable m)
    {last : UserStringHeapBuilder} (adds : ({} : UserStringHeapBuilder).Adds (bodyLiterals f' (m.types.flatMap (·.methods))) last) :
    (∃ e s, (ofModule (m.mapBodies f')).run {} = .error e s ∧ 2 ^ 32 ≤ s.il.length) ∨
      ∃ rows' d', (ofModule (m.mapBodies f')).run {} = .ok rows' d' ∧ rows.Alike (fun _ _ => True) rows' ∧
        d' = { d with userStrings := last, il := d'.il } := by
  have steps := ofModule_alike (others_match m (·.body?) f' last)
  rw [mapBodies_self] at steps
  have start : (Pairing.others m f' last).Related ⟨m.types.flatMap (·.methods), []⟩ {} {} := ⟨rfl, storable, adds⟩
  rcases steps.answers start run with stopped | ⟨rows', d', _, run', ⟨alike, rfl⟩, shape, -, left⟩
  · exact .inl stopped
  · refine .inr ⟨rows', d', run', alike, ?_⟩
    rw [left.eq_of_nil]
    exact shape

section

open ModuleDraft

variable {rows' : ModuleRows} {m' : Module} {d' : ModuleDraft} {answers : UInt32 × Option (List Nat) → UInt32 × Option (List Nat) → Prop}

theorem Alike.methods (alike : rows.Alike answers rows') : List.Forall₂ (MethodRows.Alike answers) rows.methods rows'.methods :=
  forall₂_flatMap alike.types fun _ _ type => type.methods

/-- Rows that differ in addresses fit the same layout. -/
theorem Alike.takes (alike : rows.Alike answers rows') {l : Layout}
    (takes : ∀ table ∈ rows.tables, ∀ row ∈ table.2, l.Takes table.1.columns row) :
    ∀ table ∈ rows'.tables, ∀ row ∈ table.2, l.Takes table.1.columns row := by
  have types : rows'.types.map (·.row) = rows.types.map (·.row) :=
    (map_eq_map alike.types fun _ _ type => type.row.symm).symm
  have fields : rows'.types.flatMap (·.fields) = rows.types.flatMap (·.fields) := by
    rw [List.flatMap_def, List.flatMap_def, map_eq_map alike.types fun _ _ type => type.fields.symm]
  have params : rows.methods.map (·.params) = rows'.methods.map (·.params) :=
    map_eq_map alike.methods fun r r' same => (congrArg MethodRows.params same.1).symm
  have params : rows'.methods.flatMap (·.params) = rows.methods.flatMap (·.params) := by
    rw [List.flatMap_def, List.flatMap_def, params]
  have methods : ∀ row ∈ (TableRows.of (rows'.methods.map fun r : MethodRows => r.row)).2, l.Takes Table.methodDef.columns row := by
    intro values member
    obtain ⟨row', inside', rfl⟩ := List.mem_map.mp member
    obtain ⟨r', inside, rfl⟩ := List.mem_map.mp inside'
    obtain ⟨r, own, same, -⟩ := forall₂_of_mem alike.methods.flip inside
    have before := takes (TableRows.of (rows.methods.map fun r : MethodRows => r.row)) (by simp [tables]) (TableRow.toValues r.row)
      (List.mem_map_of_mem (List.mem_map_of_mem own))
    rw [same]
    exact ⟨⟨_, rfl⟩, before.2⟩
  have shape : rows'.tables = [TableRows.of [rows.module], TableRows.of rows.typeRefs, TableRows.of (rows.types.map (·.row)),
      TableRows.of (rows.types.flatMap (·.fields)), TableRows.of (rows'.methods.map (·.row)),
      TableRows.of (rows.methods.flatMap (·.params)), TableRows.of rows.memberRefs, TableRows.of rows.signatures,
      TableRows.of rows.assembly, TableRows.of rows.assemblyRefs] := by
    unfold tables
    rw [types, fields, params, alike.others]
  unfold tables at takes
  rw [shape]
  simp only [List.forall_mem_cons] at takes ⊢
  exact ⟨takes.1, takes.2.1, takes.2.2.1, takes.2.2.2.1, methods, takes.2.2.2.2.2⟩

/-- The tables of a module with other bodies go into one stream if those of the module do. -/
theorem Alike.exists_addTo (alike : rows.Alike answers rows') {b : TableStreamBuilder}
    (added : rows.addTo { layout := layout m' d' } = .ok () b) (described : rows'.Describes m' d') :
    ∃ b', rows'.addTo { layout := layout m' d' } = .ok () b' := by
  obtain ⟨same, contains⟩ := addTo_ok added
  have takes := contains.takes
  rw [same] at takes
  exact described.exists_addTo (alike.takes takes)

end

end ModuleRows

/-- How many bytes of code the writer of a module leaves, whether it gets to its end or not. -/
def Module.codeReach (m : Module) : Nat :=
  match (ModuleRows.ofModule m).run {} with
  | .ok _ d => d.il.length
  | .error _ d => d.il.length

/-- The streams of a module can be made with other bodies that have a stored form, unless the code gets out of reach.
    They differ in what the bodies leave, and in the tables, which are no longer than their rows need. -/
theorem ModuleStreams.exists_others {streams : ModuleStreams} (made : ofModule m = .ok streams)
    (storable : ∀ method ∈ m.types.flatMap (·.methods), ∀ b, f' method = some b → b.Storable m)
    {last : UserStringHeapBuilder} (adds : ({} : UserStringHeapBuilder).Adds (bodyLiterals f' (m.types.flatMap (·.methods))) last)
    (reach : (m.mapBodies f').codeReach < 2 ^ 32) :
    ∃ streams', ofModule (m.mapBodies f') = .ok streams' ∧
      streams' = { streams with tables := streams'.tables, userStrings := last.build, il := streams'.il, offsets := (m.mapBodies f').offsets } ∧
      streams'.tables.length ≤ tableSpace (Table.ofModule.map fun t => (t, m.rows t)) ∧
      streams'.il.length = (m.mapBodies f').codeReach := by
  unfold ofModule at made
  cases run : (ModuleRows.ofModule m).run {} with
  | error e d =>
    rw [run] at made
    cases made
  | ok rows d =>
    rw [run] at made
    dsimp only at made
    obtain ⟨tables, stream, same⟩ := Outcome.bind_eq_ok.mp made
    rcases ModuleRows.exists_others run storable adds with ⟨e, s, stopped, far⟩ | ⟨rows', d', run', alike, shape⟩
    · unfold Module.codeReach at reach
      rw [stopped] at reach
      exact absurd reach (Nat.not_lt.mpr far)
    · obtain ⟨-, -, describes⟩ := ModuleRows.writes_ofModule _ {} rows' d' ModuleDraft.sound_empty run'
      have layout : ModuleDraft.layout (m.mapBodies f') d' =
          .ofCounts m.rowCounts (heapSizes d.strings.isLarge d.guids.isLarge d.blobs.isLarge) := by
        rw [ModuleDraft.layout, Module.rowCounts_mapBodies, shape]
      unfold TableStreamBuilder.stream at stream
      rw [← layout] at stream
      cases added : rows.addTo.run { layout := ModuleDraft.layout (m.mapBodies f') d' } with
      | error e b =>
        rw [added] at stream
        cases stream
      | ok u b =>
        have described := describes d' (ModuleDraft.Grows.refl d')
        obtain ⟨b', added'⟩ := alike.exists_addTo added described
        have space := TableStreamBuilder.length_build_le (ModuleRows.addTo_ok added').2
        rw [described.counts_tables] at space
        simp only [Module.rows_mapBodies] at space
        refine ⟨ofDraft rows' d' b', ?_, ?_, space, ?_⟩
        · unfold ofModule
          rw [run']
          exact Outcome.bind_eq_ok.mpr ⟨b'.build, TableStreamBuilder.stream_of_ok added', rfl⟩
        · rw [← Outcome.pure_eq_ok.mp same, ← offsets_of_describes described, shape]
          rfl
        · unfold Module.codeReach
          rw [run']
          rfl

end CilWeaver
