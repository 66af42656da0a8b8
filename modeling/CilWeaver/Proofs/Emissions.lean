import CilWeaver.Proofs.Rereading
import CilWeaver.Weave.Pipeline

/-!
The images of a module and the module that is read from them.
-/

namespace CilWeaver

open Code Step

theorem Token.table?_of_isIn {token : Token} {t : Table} (named : token.isIn t = true) : token.table? = some t := by
  unfold isIn at named
  rw [table?, beq_iff_eq.mp named, Table.ofNumber?_number]

namespace Module

theorem length_methodList (m : Module) : m.methodList.length = m.rows .methodDef := by
  have count := congrArg List.length (ModuleRows.methodList_map_snd m)
  rw [List.length_map, List.length_flatMap] at count
  exact count

/-- What the symbols of a module were written as, along with a debug record. -/
def SymbolsEmittedAs (m : Module) (rows : ModuleRows) (data : Bytes) : Option CodeViewRecord → Prop
  | none => m.symbols? = none ∧ data = []
  | some record => m.symbols? = some ⟨record.path, record.age⟩ ∧ ∃ symbolRows debugs draft builder,
    SymbolStreams.Written m (rows.methods.map (·.offsets?)) symbolRows debugs draft builder ∧
      (SymbolStreams.ofDraft m draft builder).image record.id = .ok data

/-- What a module was written as. -/
structure EmittedAs (m : Module) (e : EmittedModule) (rows : ModuleRows) (d : ModuleDraft) (b : TableStreamBuilder)
    (record? : Option CodeViewRecord) : Prop where
  written : Written m rows d b
  code : (ModuleStreams.ofDraft rows d b).image m.runtimeVersion record? = .ok e.code
  symbols : m.SymbolsEmittedAs rows e.symbols record?

theorem images_eq_ok {m : Module} {file : SymbolFile} {streams : ModuleStreams} {symbols : SymbolStreams} {id : ImageId}
    {e : EmittedModule} : m.images file streams symbols id = .ok e ↔
      streams.image m.runtimeVersion (some ⟨id, file.age, file.path⟩) = .ok e.code ∧
        symbols.image id = .ok e.symbols := by
  unfold Module.images
  rw [Outcome.bind_eq_ok]
  constructor
  · rintro ⟨code, hcode, h⟩
    obtain ⟨data, hdata, h⟩ := Outcome.bind_eq_ok.mp h
    rw [← Outcome.pure_eq_ok.mp h]
    exact ⟨hcode, hdata⟩
  · rintro ⟨hcode, hdata⟩
    exact ⟨e.code, hcode, Outcome.bind_eq_ok.mpr ⟨e.symbols, hdata, rfl⟩⟩

theorem emittedAs_of_emit {digest : Bytes → ImageId} {m : Module} {e : EmittedModule} (h : m.emit digest = .ok e) :
    ∃ rows d b record?, m.EmittedAs e rows d b record? := by
  unfold Module.emit at h
  obtain ⟨streams, made, h⟩ := Outcome.bind_eq_ok.mp h
  obtain ⟨rows, d, b, written, rfl⟩ := ModuleStreams.ofModule_eq_ok made
  cases present : m.symbols? with
  | none =>
    simp only [present] at h
    obtain ⟨code, built, h⟩ := Outcome.bind_eq_ok.mp h
    rw [← Outcome.pure_eq_ok.mp h]
    exact ⟨rows, d, b, none, written, built, present, rfl⟩
  | some file =>
    simp only [present] at h
    obtain ⟨symbols, made, h⟩ := Outcome.bind_eq_ok.mp h
    obtain ⟨symbolRows, debugs, draft, builder, symbolsWritten, rfl⟩ := SymbolStreams.ofModule_eq_ok made
    obtain ⟨blank, -, h⟩ := Outcome.bind_eq_ok.mp h
    obtain ⟨code, symbols⟩ := images_eq_ok.mp h
    exact ⟨rows, d, b, some ⟨_, file.age, file.path⟩, written, code, present, symbolRows, debugs, draft, builder,
      symbolsWritten, symbols⟩

/-- A module is read with the symbols it was written with, if there are any. -/
theorem SymbolsEmittedAs.symbols?_eq {m : Module} {e : EmittedModule} {rows : ModuleRows}
    {record? : Option CodeViewRecord} (symbols : m.SymbolsEmittedAs rows e.symbols record?) (name : String) :
    CompiledModule.symbols? ⟨name, e.code, e.symbols⟩ = if m.symbols?.isSome then some e.symbols else none := by
  unfold CompiledModule.symbols?
  cases record? with
  | none =>
    obtain ⟨absent, empty⟩ := symbols
    rw [absent, empty]
    rfl
  | some record =>
    obtain ⟨present, symbolRows, debugs, draft, builder, -, data⟩ := symbols
    have nonempty : e.symbols ≠ [] := by
      unfold SymbolStreams.image at data
      exact Root.build_ne_nil data
    rw [present, if_neg (by simpa using nonempty)]
    rfl

/-- The symbols of a written module tell about all its methods. -/
theorem tells_of_written {m : Module} {rows : ModuleRows} {d : ModuleDraft} {b : TableStreamBuilder}
    {symbolRows : List DocumentRow × List MethodDebugRow} {debugs : List MethodDebug} {draft : SymbolDraft}
    {builder : TableStreamBuilder} (written : Written m rows d b) (present : m.symbols?.isSome = true)
    (symbols : SymbolStreams.Written m (rows.methods.map (·.offsets?)) symbolRows debugs draft builder)
    {position : Nat} {method : MethodDef} (found : (m.types.flatMap (·.methods))[position]? = some method) :
    Tells m (some ⟨m.documents, m.entryPoint, debugs⟩) position method := by
  refine ⟨present, fun text small => ?_⟩
  obtain ⟨inside, same⟩ := List.getElem?_eq_some_iff.mp found
  have methods := written.described.methods
  have stored := symbols.described.stored
  have count := methods.length_eq
  have listed : m.methodList.length = (m.types.flatMap (·.methods)).length := by
    rw [← ModuleRows.methodList_map_snd, List.length_map]
  have place : position < rows.methods.length := by omega
  have total := stored.length_eq
  rw [List.length_zip, List.length_map] at total
  have bound : position < debugs.length := by omega
  have has := (List.forall₂_iff_get.mp methods).2 position inside place
  have debug := (List.forall₂_iff_get.mp stored).2 position (by simp; omega) bound
  simp only [List.get_eq_getElem, List.getElem_zip, List.getElem_map] at has debug
  have among : position < m.methodList.length := by omega
  have second : m.methodList[position].2 = method := by
    have whole := congrArg (·[position]?) (ModuleRows.methodList_map_snd m)
    simp only [List.getElem?_map, found, List.getElem?_eq_getElem among,
      Option.map_some] at whole
    exact Option.some.inj whole
  rw [second] at debug
  rw [same] at has
  have known : (SymbolImage.methods ⟨m.documents, m.entryPoint, debugs⟩)[position]? = some debugs[position] :=
    List.getElem?_eq_getElem bound
  have body := has.body
  unfold ModuleWriter.HasBody at body
  unfold MethodDef.AllBodies at small
  cases shape : method.body? with
  | none =>
    rw [shape] at debug
    have empty : debugs[position] = ⟨0, []⟩ := debug
    rw [empty] at known
    unfold SymbolImage.bodySymbols
    simp only [known]
    rfl
  | some own =>
    simp only [shape] at body
    obtain ⟨layout, checked, -⟩ := body
    rw [shape, layout] at debug
    exact SymbolImage.bodySymbols_eq known debug checked.placed (small own shape) text

theorem row_of_contains {m : Module} {token : Token} {t : Table} (contained : m.contains token = true)
    (named : token.isIn t = true) : 1 ≤ token.row ∧ token.row ≤ m.rows t := by
  unfold Module.contains at contained
  rw [Token.table?_of_isIn named] at contained
  simpa using contained

/-- The entry point of a module that was written is accepted. -/
theorem checkEntryPoint_ok {m : Module} {rows : ModuleRows} {d : ModuleDraft} {b : TableStreamBuilder}
    (written : Written m rows d b) (record? : Option CodeViewRecord) (name : String) :
    (ModuleImage.ofDraft m rows d b record?).checkEntryPoint name m.entryPoint = .ok () := by
  have checked := written.described.entryPoint
  unfold ModuleWriter.entryPointCheck at checked
  unfold ModuleImage.checkEntryPoint
  split at checked
  · rename_i accepted
    refine if_pos ?_
    rcases Bool.or_eq_true_iff.mp accepted with null | named
    · rw [null]
      rfl
    · obtain ⟨table, contained⟩ := Bool.and_eq_true_iff.mp named
      have count := written.described.methods.length_eq
      have bound : m.entryPoint.row ≤ (rows.methods.map (·.row)).length := by
        rw [List.length_map, ← count, List.length_flatMap]
        exact (row_of_contains contained table).2
      rw [table]
      simpa using .inr bound
  · cases checked

/-- The images of a module are read as its normal form iff a reader accepts the module and the images are
    within the reach of offsets. The texts may have gone on behind a zero character, where a reader stops. -/
theorem ofImages_beforeNul {m : Module} {e : EmittedModule} {rows : ModuleRows} {d : ModuleDraft} {b : TableStreamBuilder}
    {version : String} {record? : Option CodeViewRecord} (written : Written m rows d b)
    (text : beforeNul version = m.runtimeVersion)
    (code : (ModuleStreams.ofDraft rows d b).image version record? = .ok e.code)
    (symbols : m.SymbolsEmittedAs rows e.symbols (recordRead? record?))
    {name : String} {maxBodySize : Nat} {found : Module} :
    ofImages name maxBodySize e.code (CompiledModule.symbols? ⟨name, e.code, e.symbols⟩) = .ok found ↔
      found = m.reread ∧ m.Readable maxBodySize ∧ e.code.length < 2 ^ 32 ∧ e.symbols.length < 2 ^ 32 := by
  have given := symbols.symbols?_eq name
  have images := fun image => @parse_image_beforeNul m rows d b version record? e.code image written text code
  cases read : recordRead? record? with
  | none =>
    rw [read] at symbols images
    obtain ⟨absent, empty⟩ := symbols
    have normal : { m.reread with documents := [], entryPoint := .null, symbols? := none } = m.reread := by
      unfold Module.reread
      rw [absent]
      rfl
    rw [given, empty, absent]
    unfold ofImages
    rw [Outcome.bind_eq_ok]
    have tells : ∀ position method, (m.types.flatMap (·.methods))[position]? = some method →
        Tells m none position method := fun _ _ _ => absent
    constructor
    · rintro ⟨image, parsed, read⟩
      obtain ⟨rfl, small, few⟩ := (images image).mp parsed
      obtain ⟨rfl, bodies⟩ := (module_eq_ok written (shows_of_image code small) tells found).mp read
      exact ⟨normal, ⟨few, fun present => by simp [absent] at present, bodies⟩, small, by decide⟩
    · rintro ⟨rfl, readable, small, -⟩
      refine ⟨_, (images _).mpr ⟨rfl, small, readable.rows⟩, ?_⟩
      exact (module_eq_ok written (shows_of_image code small) tells _).mpr ⟨normal.symm, readable.bodies⟩
  | some record =>
    rw [read] at symbols images
    obtain ⟨present, symbolRows, debugs, draft, builder, symbolsWritten, data⟩ := symbols
    have shows' : e.code.length < 2 ^ 32 → (ModuleImage.ofDraft m rows d b (some record)).Shows d := shows_of_image code
    have isSome : m.symbols?.isSome = true := by
      rw [present]
      rfl
    have normal : { m.reread with
        documents := m.documents, entryPoint := m.entryPoint, symbols? := some ⟨record.path, record.age⟩ } =
        m.reread := by
      unfold Module.reread
      rw [← present, isSome]
      rfl
    have counted : (ModuleImage.ofDraft m rows d b (some record)).methods.length = m.rows .methodDef := by
      change (rows.methods.map (·.row)).length = _
      rw [List.length_map, ← written.described.methods.length_eq, List.length_flatMap]
      rfl
    have total : symbolRows.2.length = m.rows .methodDef := by
      have listed := length_methodList m
      have stored := symbolsWritten.described.stored.length_eq
      have methods := symbolsWritten.described.methods.length_eq
      change (rows.methods.map (·.row)).length = _ at counted
      rw [List.length_map] at counted
      rw [List.length_zip, List.length_map] at stored
      omega
    have tells := fun position method => @tells_of_written m rows d b symbolRows debugs draft builder written isSome
      symbolsWritten position method
    have symbolsParse := fun few symbols =>
      @SymbolImage.parse_eq_ok m _ symbolRows debugs draft builder symbolsWritten total few record.id e.symbols symbols data
    rw [given, isSome]
    unfold ofImages
    rw [Outcome.bind_eq_ok]
    constructor
    · rintro ⟨image, parsed, read⟩
      obtain ⟨rfl, small, few⟩ := (images image).mp parsed
      obtain ⟨⟨symbols, file⟩, readSymbols, read⟩ := Outcome.bind_eq_ok.mp read
      obtain ⟨own, readOwn, same⟩ := Outcome.bind_eq_ok.mp readSymbols
      cases Outcome.pure_eq_ok.mp same
      rw [counted] at readOwn
      obtain ⟨rfl, smallSymbols, documents⟩ := (symbolsParse (few .methodDef (by decide)) symbols).mp readOwn
      obtain ⟨found', module, read⟩ := Outcome.bind_eq_ok.mp read
      obtain ⟨rfl, bodies⟩ := (module_eq_ok written (shows' small) tells found').mp module
      obtain ⟨⟨⟩, -, last⟩ := Outcome.bind_eq_ok.mp read
      rw [← Outcome.pure_eq_ok.mp last]
      exact ⟨normal, ⟨few, fun _ => documents, bodies⟩, small, smallSymbols⟩
    · rintro ⟨rfl, readable, small, smallSymbols⟩
      refine ⟨_, (images _).mpr ⟨rfl, small, readable.rows⟩, ?_⟩
      have readOwn := (symbolsParse (readable.rows .methodDef (by decide)) _).mpr
        ⟨rfl, smallSymbols, readable.documents isSome⟩
      have module := (module_eq_ok written (shows' small) tells _).mpr ⟨rfl, readable.bodies⟩
      refine Outcome.bind_eq_ok.mpr ⟨(_, ⟨record.path, record.age⟩), ?_, Outcome.bind_eq_ok.mpr ⟨_, module, ?_⟩⟩
      · unfold symbolsOf
        refine Outcome.bind_eq_ok.mpr ⟨_, ?_, rfl⟩
        rw [counted]
        exact readOwn
      · dsimp only
        rw [checkEntryPoint_ok written, Outcome.ok_bind]
        exact congrArg Except.ok normal

theorem ofImages_eq_ok {m : Module} {e : EmittedModule} {rows : ModuleRows} {d : ModuleDraft} {b : TableStreamBuilder}
    {record? : Option CodeViewRecord} (emitted : m.EmittedAs e rows d b record?)
    (noNul : '\x00' ∉ m.runtimeVersion.toList) (noNulPath : ∀ file ∈ m.symbols?, '\x00' ∉ file.path.toList)
    {name : String} {maxBodySize : Nat} {found : Module} :
    ofImages name maxBodySize e.code (CompiledModule.symbols? ⟨name, e.code, e.symbols⟩) = .ok found ↔
      found = m.reread ∧ m.Readable maxBodySize ∧ e.code.length < 2 ^ 32 ∧ e.symbols.length < 2 ^ 32 := by
  obtain ⟨written, code, symbols⟩ := emitted
  have plain : recordRead? record? = record? := by
    refine recordRead?_eq fun record given => ?_
    cases given
    exact noNulPath _ symbols.1
  rw [← plain] at symbols
  exact ofImages_beforeNul written (beforeNul_eq noNul) code symbols

end Module

end CilWeaver
