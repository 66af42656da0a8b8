import CilWeaver.Proofs.SymbolImages

/-!
A module that was written is read as its normal form, if a reader accepts it: branches have the form
they are written in, locals are those of their signature, and what only symbols tell is there only
with symbols.
-/

namespace CilWeaver

open Code Step

/-- Reading each item answers a value of its own, under a condition of its own. -/
theorem Outcome.mapM_eq_ok_iff {α β γ ε : Type} {f : α → Except ε γ} {g : β → γ} {q : β → Prop} {as : List α}
    {bs : List β} (each : List.Forall₂ (fun a b => ∀ c, f a = .ok c ↔ c = g b ∧ q b) as bs) {cs : List γ} :
    as.mapM f = .ok cs ↔ cs = bs.map g ∧ ∀ b ∈ bs, q b := by
  rw [Outcome.mapM_eq_ok]
  induction each generalizing cs with
  | nil => simp
  | cons first others ih =>
    rename_i a b as bs
    rw [List.forall₂_cons_left_iff, List.map_cons, List.forall_mem_cons]
    constructor
    · rintro ⟨c, rest, one, more, rfl⟩
      obtain ⟨rfl, own⟩ := (first c).mp one
      obtain ⟨rfl, all⟩ := ih.mp more
      exact ⟨rfl, own, all⟩
    · rintro ⟨rfl, own, all⟩
      exact ⟨g b, bs.map g, (first _).mpr ⟨rfl, own⟩, ih.mpr ⟨rfl, all⟩, rfl⟩

namespace Module

/-- The types of the locals whose signature a token names; a null token stands for none. -/
def localTypes (m : Module) (token : Token) : Result (List TypeSig) :=
  if token.isNull then .ok []
  else match (if token.isIn .standAloneSig then rowOf? m.localSignatures token.row else none) with
    | none => .error .outOfBounds
    | some signature => Signature.parseLocals signature

/-- Whether the token names a row of the module image, where symbols have no rows. -/
def containsInImage (m : Module) (token : Token) : Bool :=
  m.contains token && token.table?.any Table.ofModule.contains

end Module

/-- The instructions of the body as they are written, and where they start. -/
def MethodBody.decoded (b : MethodBody) : DecodedBody := ⟨promote b.code, offsets (promote b.code)⟩

/-- The body that is read after this one was written. -/
def MethodBody.reread (m : Module) (b : MethodBody) : MethodBody :=
  { b with
    code := promote b.code
    locals := (m.localTypes b.localSignature).toOption.getD []
    symbols? := if m.symbols?.isSome then b.storedSymbols? else none }

def MethodDef.reread (m : Module) (method : MethodDef) : MethodDef :=
  { method with body? := method.body?.map (MethodBody.reread m) }

def TypeDef.reread (m : Module) (t : TypeDef) : TypeDef :=
  { t with methods := t.methods.map (MethodDef.reread m) }

/-- The module that is read after this one was written, before references are resolved. -/
def Module.reread (m : Module) : Module :=
  { m with
    typeRefs := m.typeRefs.map ({ · with definition? := none })
    memberRefs := m.memberRefs.map ({ · with definition? := none })
    types := m.types.map (TypeDef.reread m)
    documents := if m.symbols?.isSome then m.documents else []
    entryPoint := if m.symbols?.isSome then m.entryPoint else .null }

/-- What a reader asks of a body that was written. -/
structure MethodBody.Readable (m : Module) (maxBodySize : Nat) (b : MethodBody) : Prop where
  size : codeSize (promote b.code) ≤ maxBodySize
  reaches : Reaches (promote b.code)
  operands : ∀ i ∈ b.code, ∀ token, i.operand.token? = some token → m.containsInImage token = true
  catches : ∀ r ∈ b.regions, Region.Catchable m.containsInImage r
  locals : ∃ types, m.localTypes b.localSignature = .ok types

/-- A condition on all bodies of a method. -/
def MethodDef.AllBodies (p : MethodBody → Prop) (method : MethodDef) : Prop := ∀ b, method.body? = some b → p b

/-- The bodies of a module that was written passed the checks of the writer, and stand in the code. -/
theorem stored_of_written {m : Module} {rows : ModuleRows} {d : ModuleDraft} {b : TableStreamBuilder}
    (written : Written m rows d b) : ∀ t ∈ m.types, ∀ method ∈ t.methods,
    method.AllBodies fun body => body.Checked m ∧ ∃ address, body.Stored address d := by
  intro t type method member body shape
  obtain ⟨own, -, has⟩ := forall₂_of_mem written.described.methods (List.mem_flatMap.mpr ⟨t, type, member⟩)
  have stored := has.body
  rw [shape] at stored
  exact ⟨stored.2.1, _, stored.2.2.1⟩

theorem checked_of_written {m : Module} {rows : ModuleRows} {d : ModuleDraft} {b : TableStreamBuilder}
    (written : Written m rows d b) :
    ∀ t ∈ m.types, ∀ method ∈ t.methods, method.AllBodies (MethodBody.Checked m) :=
  fun t type method member body shape => (stored_of_written written t type method member body shape).1

/-- What a reader asks of a module that was written. -/
structure Module.Readable (m : Module) (maxBodySize : Nat) : Prop where
  rows : ∀ t ∈ Table.ofModule, m.rows t ≤ maxRows
  documents : m.symbols?.isSome = true → m.documents.length ≤ maxRows
  bodies : ∀ t ∈ m.types, ∀ method ∈ t.methods, method.AllBodies (MethodBody.Readable m maxBodySize)

section

variable {m : Module} {rows : ModuleRows} {d : ModuleDraft} {b : TableStreamBuilder}
  {record? : Option CodeViewRecord} {maxBodySize : Nat}

theorem locals_ofDraft (written : Written m rows d b) (shows' : (ModuleImage.ofDraft m rows d b record?).Shows d)
    (method : String) (token : Token) (types : List TypeSig) :
    (ModuleImage.ofDraft m rows d b record?).locals method token = .ok types ↔ m.localTypes token = .ok types := by
  unfold ModuleImage.locals Module.localTypes
  by_cases null : token.isNull = true
  · rw [if_pos null, if_pos null]
  · rw [if_neg null, if_neg null]
    by_cases table : token.isIn .standAloneSig = true
    · rw [if_pos table, if_pos table]
      cases shape : token.row with
      | zero =>
        exact ⟨fun h => (by cases h), fun h => (by cases h)⟩
      | succ row =>
        have count := written.described.signatures.length_eq
        have inImage : Module.rowOf? (ModuleImage.ofDraft m rows d b record?).signatures (row + 1) =
          rows.signatures[row]? := rfl
        have inModule : Module.rowOf? m.localSignatures (row + 1) = m.localSignatures[row]? := rfl
        rw [inImage, inModule]
        by_cases inside : row < rows.signatures.length
        · have named : row < m.localSignatures.length := by omega
          have holds := (List.forall₂_iff_get.mp written.described.signatures).2 row named inside
          have blob := shows'.blobs _ _ holds
          rw [List.get_eq_getElem, List.get_eq_getElem] at blob
          rw [List.getElem?_eq_getElem inside, List.getElem?_eq_getElem named]
          dsimp only
          rw [blob, Outcome.ok_bind]
        · rw [List.getElem?_eq_none (by omega), List.getElem?_eq_none (by omega)]
          exact ⟨fun h => (by cases h), fun h => (by cases h)⟩
    · rw [if_neg table, if_neg table]
      exact ⟨fun h => (by cases h), fun h => (by cases h)⟩

theorem token?_promote {code : List Instruction} {p : Token → Prop} :
    (∀ i ∈ promote code, ∀ token, i.operand.token? = some token → p token) ↔
      ∀ i ∈ code, ∀ token, i.operand.token? = some token → p token := by
  have widened := widened_promote code
  constructor
  · intro all i member token named
    obtain ⟨j, mem, wider⟩ := forall₂_of_mem widened member
    exact all j mem token (Instruction.Widened.operand_eq wider ▸ named)
  · intro all j member token named
    obtain ⟨i, mem, wider⟩ := forall₂_of_mem widened.flip member
    exact all i mem token (Instruction.Widened.operand_eq wider ▸ named)

/-- An image of the module accepts a body whose locals can be read iff the module does. -/
theorem readable_iff (written : Written m rows d b) (record? : Option CodeViewRecord) {body : MethodBody} :
    ((∃ types, m.localTypes body.localSignature = .ok types) ∧
      (ModuleImage.ofDraft m rows d b record?).Accepts maxBodySize body) ↔ body.Readable m maxBodySize := by
  have contains : (ModuleImage.ofDraft m rows d b record?).contains = m.containsInImage := by
    funext token
    exact contains_ofDraft written record? token
  constructor
  · rintro ⟨locals, size, reaches, operands, catches⟩
    rw [contains] at operands catches
    exact ⟨size, reaches, token?_promote.mp operands, catches, locals⟩
  · rintro ⟨size, reaches, operands, catches, locals⟩
    rw [← contains] at operands catches
    exact ⟨locals, size, reaches, token?_promote.mpr operands, catches⟩

/-- The symbols that are read along with the module, if any, have the points of a method. -/
def Tells (m : Module) (symbols? : Option SymbolImage) (position : Nat) (method : MethodDef) : Prop :=
  match symbols? with
  | none => m.symbols? = none
  | some symbols => m.symbols?.isSome = true ∧
      ∀ text, method.AllBodies (fun body => codeSize (promote body.code) < 2 ^ 32) →
        symbols.bodySymbols position (method.body?.map MethodBody.decoded) text =
          .ok (method.body?.bind MethodBody.storedSymbols?)

/-- The source points that are read for a method. -/
def pointsOf (symbols? : Option SymbolImage) (position : Nat) (text : String) (decoded? : Option DecodedBody) :
    Result (Option BodySymbols) :=
  match symbols? with
  | none => .ok none
  | some symbols => symbols.bodySymbols position decoded? text

theorem Tells.pointsOf {symbols? : Option SymbolImage} {position : Nat} {method : MethodDef}
    (tells : Tells m symbols? position method) (text : String)
    (small : method.AllBodies fun body => codeSize (promote body.code) < 2 ^ 32) :
    pointsOf symbols? position text (method.body?.map MethodBody.decoded) =
      .ok (if m.symbols?.isSome then method.body?.bind MethodBody.storedSymbols? else none) := by
  cases symbols? with
  | none =>
    have absent : m.symbols? = none := tells
    rw [absent]
    rfl
  | some symbols =>
    obtain ⟨present, told⟩ := tells
    rw [present]
    exact told text small

theorem bodyWithSymbols_eq (image : ModuleImage) (symbols? : Option SymbolImage) (position : Nat) (text : String)
    (address : UInt32) :
    image.bodyWithSymbols symbols? maxBodySize position text address =
      ((if address == 0 then .ok none else some <$> image.body maxBodySize text address) >>= fun found? =>
        pointsOf symbols? position text (found?.map (·.2)) >>= fun points? =>
          .ok (found?.map fun found => { found.1 with symbols? := points? })) := by
  unfold ModuleImage.bodyWithSymbols CilWeaver.pointsOf
  by_cases none : (address == 0) = true
  · simp only [none, ↓reduceIte]
    cases symbols? <;> rfl
  · simp only [none, Bool.false_eq_true, ↓reduceIte]
    cases symbols? <;> rfl

theorem bodyWithSymbols_eq_ok (written : Written m rows d b)
    (shows' : (ModuleImage.ofDraft m rows d b record?).Shows d) {symbols? : Option SymbolImage} {position : Nat}
    {method : MethodDef} (tells : Tells m symbols? position method) {address : UInt32}
    {offsets? : Option (List Nat)} (has : ModuleWriter.HasBody m method.body? address offsets? d) (text : String)
    (found : Option MethodBody) :
    (ModuleImage.ofDraft m rows d b record?).bodyWithSymbols symbols? maxBodySize position text address = .ok found ↔
      found = method.body?.map (MethodBody.reread m) ∧ method.AllBodies (MethodBody.Readable m maxBodySize) := by
  have told := tells.pointsOf text
  unfold MethodDef.AllBodies at told ⊢
  rw [bodyWithSymbols_eq]
  cases shape : method.body? with
  | none =>
    rw [shape] at has told
    obtain ⟨rfl, -⟩ := has
    have points := told fun body same => by cases same
    simp only [Option.map_none, Option.bind_none, ite_self] at points
    simp only [beq_self_eq_true, ↓reduceIte, Outcome.ok_bind, Option.map_none, points]
    constructor
    · intro h
      exact ⟨(Except.ok.inj h).symm, fun body same => by cases same⟩
    · rintro ⟨rfl, -⟩
      rfl
  | some body =>
    rw [shape] at has told
    obtain ⟨-, checked, stored, aligned, reserved⟩ := has
    have named : ¬ (address == 0) = true := by
      rw [beq_iff_eq]
      rintro rfl
      exact absurd reserved (by decide)
    have points := told fun other same => by
      cases same
      exact ModuleImage.codeSize_lt_of_stored shows' stored
    have bodies := fun found => @ModuleImage.body_eq_ok (ModuleImage.ofDraft m rows d b record?) d m body address
      maxBodySize text found shows' checked stored aligned reserved
    rw [if_neg named]
    have known : ∀ types, m.localTypes body.localSignature = .ok types →
        (m.localTypes body.localSignature).toOption.getD [] = types := by
      intro types same
      rw [same]
      rfl
    constructor
    · intro h
      obtain ⟨found?, read, h⟩ := Outcome.bind_eq_ok.mp h
      obtain ⟨own, answer, rfl⟩ := Outcome.map_eq_ok.mp read
      obtain ⟨types, locals, accepts, rfl⟩ := (bodies own).mp answer
      obtain ⟨points?, told, h⟩ := Outcome.bind_eq_ok.mp h
      cases points.symm.trans told
      have decoded := (locals_ofDraft written shows' _ _ _).mp locals
      refine ⟨?_, fun other same => ?_⟩
      · rw [← Except.ok.inj h, Option.map_some, Option.map_some, MethodBody.reread, known types decoded]
        rfl
      · cases same
        exact (readable_iff written record?).mp ⟨⟨types, decoded⟩, accepts⟩
    · rintro ⟨rfl, readable⟩
      obtain ⟨⟨types, decoded⟩, accepts⟩ := (readable_iff written record?).mpr (readable body rfl)
      have read := (bodies _).mpr ⟨types, (locals_ofDraft written shows' _ _ _).mpr decoded, accepts, rfl⟩
      refine Outcome.bind_eq_ok.mpr ⟨_, Outcome.map_eq_ok.mpr ⟨_, read, rfl⟩,
        Outcome.bind_eq_ok.mpr ⟨_, points, ?_⟩⟩
      rw [Option.map_some, Option.map_some, MethodBody.reread, known types decoded]
      rfl

theorem paramDef_eq {p : ParamDef} {row : ParamRow} (shows' : (ModuleImage.ofDraft m rows d b record?).Shows d)
    (has : d.HasParam p row) : (ModuleImage.ofDraft m rows d b record?).paramDef row = .ok p := by
  unfold ModuleImage.paramDef
  rw [shows'.strings _ _ has.name, Outcome.ok_bind, has.flags, has.sequence]
  rfl

theorem fieldDef_eq {f : FieldDef} {row : FieldRow} (shows' : (ModuleImage.ofDraft m rows d b record?).Shows d)
    (has : d.HasField f row) : (ModuleImage.ofDraft m rows d b record?).fieldDef row = .ok f := by
  unfold ModuleImage.fieldDef
  rw [shows'.strings _ _ has.name, Outcome.ok_bind, shows'.blobs _ _ has.signature, Outcome.ok_bind, has.flags]
  rfl

/-- A method is read from its row and the rows of its parameters. -/
theorem methodDef_eq_ok (written : Written m rows d b) (shows' : (ModuleImage.ofDraft m rows d b record?).Shows d)
    {symbols? : Option SymbolImage} {position : Nat} {method : MethodDef} {own : MethodRows}
    (has : d.HasMethod m method own) (tells : Tells m symbols? position method) {run : Run}
    (params : run.slice (ModuleImage.ofDraft m rows d b record?).params = own.params) (owner : TypeDef)
    (found : MethodDef) :
    (ModuleImage.ofDraft m rows d b record?).methodDef symbols? maxBodySize owner position own.row run = .ok found ↔
      found = method.reread m ∧ method.AllBodies (MethodBody.Readable m maxBodySize) := by
  have parameters : own.params.mapM (ModuleImage.ofDraft m rows d b record?).paramDef = .ok method.params :=
    Outcome.mapM_eq_ok.mpr (has.params.flip.imp fun row p has => paramDef_eq shows' has)
  unfold ModuleImage.methodDef
  rw [shows'.strings _ _ has.name, Outcome.ok_bind, params, parameters, Outcome.ok_bind, Outcome.bind_eq_ok]
  simp only [shows'.blobs _ _ has.signature, Outcome.ok_bind, has.flags, has.implFlags]
  constructor
  · rintro ⟨body?, read, last⟩
    obtain ⟨rfl, readable⟩ := (bodyWithSymbols_eq_ok written shows' tells has.body _ _).mp read
    exact ⟨(Outcome.pure_eq_ok.mp last).symm, readable⟩
  · rintro ⟨rfl, readable⟩
    exact ⟨_, (bodyWithSymbols_eq_ok written shows' tells has.body _ _).mpr ⟨rfl, readable⟩, rfl⟩

/-- A column of a base type that is read. -/
theorem baseType_eq {token : Token} {index : CodedIndex} (has : ModuleDraft.HasBaseType m token index) :
    (if index.isNull then .null else index.token) = token := by
  unfold ModuleDraft.HasBaseType at has
  split at has
  · rename_i null
    subst has
    have zero : token.value = 0 := beq_iff_eq.mp null
    cases token
    exact congrArg Token.mk zero.symm
  · obtain ⟨same, -, -, -⟩ := CodedIndex.ofToken_eq_ok has.coded
    rw [isNull_of_reference has, same]
    rfl

/-- A type is read from its row and the rows of its members; `runs` are those of the parameters. -/
theorem typeDef_eq_ok (written : Written m rows d b) (shows' : (ModuleImage.ofDraft m rows d b record?).Shows d)
    {symbols? : Option SymbolImage} {t : TypeDef} {own : TypeRows} (has : d.HasType m t own) {fields methods : Run}
    {paramRuns runs : List Run} (ownFields : fields.slice (ModuleImage.ofDraft m rows d b record?).fields = own.fields)
    (ownMethods : methods.slice (ModuleImage.ofDraft m rows d b record?).methods = own.methods.map (·.row))
    (ownRuns : methods.slice paramRuns = runs)
    (params : runs.map (·.slice (ModuleImage.ofDraft m rows d b record?).params) = own.methods.map (·.params))
    (tells : ∀ index method, t.methods[index]? = some method → Tells m symbols? (methods.start + index) method)
    (found : TypeDef) :
    (ModuleImage.ofDraft m rows d b record?).typeDef symbols? maxBodySize paramRuns own.row fields methods =
        .ok found ↔
      found = t.reread m ∧
        ∀ method ∈ t.methods, method.AllBodies (MethodBody.Readable m maxBodySize) := by
  have ownFieldDefs : own.fields.mapM (ModuleImage.ofDraft m rows d b record?).fieldDef = .ok t.fields :=
    Outcome.mapM_eq_ok.mpr (has.fields.flip.imp fun row f has => fieldDef_eq shows' has)
  have count := has.methods.length_eq
  have countRuns : runs.length = own.methods.length := by
    have := congrArg List.length params
    rwa [List.length_map, List.length_map] at this
  have each : ∀ owner : TypeDef, List.Forall₂ (fun (item : (MethodDefRow × Run) × Nat) (method : MethodDef) =>
      ∀ answer, (ModuleImage.ofDraft m rows d b record?).methodDef symbols? maxBodySize owner item.2 item.1.1
        item.1.2 = .ok answer ↔
          answer = method.reread m ∧ method.AllBodies (MethodBody.Readable m maxBodySize))
      (((own.methods.map (·.row)).zip runs).zipIdx methods.start) t.methods := by
    intro owner
    refine List.forall₂_iff_get.mpr ⟨by simp [countRuns, count], fun index inside bound => ?_⟩
    have place : index < own.methods.length := by omega
    have item := (List.forall₂_iff_get.mp has.methods).2 index bound place
    have run : index < runs.length := by omega
    have slice : runs[index].slice (ModuleImage.ofDraft m rows d b record?).params =
        own.methods[index].params := by
      have whole := List.getElem_of_eq params (by rw [List.length_map]; exact run)
      rwa [List.getElem_map, List.getElem_map] at whole
    intro answer
    simp only [List.get_eq_getElem, List.getElem_zipIdx, List.getElem_zip, List.getElem_map] at item ⊢
    exact methodDef_eq_ok written shows' item (tells index _ (List.getElem?_eq_getElem bound)) slice owner answer
  unfold ModuleImage.typeDef
  rw [shows'.strings _ _ has.namespaceName, Outcome.ok_bind, shows'.strings _ _ has.name, Outcome.ok_bind]
  simp only [ownFields, ownFieldDefs, ownMethods, ownRuns, Outcome.ok_bind, baseType_eq has.baseType]
  rw [Outcome.bind_eq_ok]
  constructor
  · rintro ⟨defs, read, last⟩
    obtain ⟨rfl, readable⟩ := (Outcome.mapM_eq_ok_iff (each _)).mp read
    refine ⟨?_, readable⟩
    rw [← Outcome.pure_eq_ok.mp last, has.flags]
    rfl
  · rintro ⟨rfl, readable⟩
    refine ⟨_, (Outcome.mapM_eq_ok_iff (each _)).mpr ⟨rfl, readable⟩, ?_⟩
    rw [has.flags]
    rfl

theorem mapM_typeDef_eq_ok (written : Written m rows d b)
    (shows' : (ModuleImage.ofDraft m rows d b record?).Shows d) {symbols? : Option SymbolImage}
    (tells : ∀ position method, (m.types.flatMap (·.methods))[position]? = some method →
      Tells m symbols? position method) (found : List TypeDef) :
    ((rows.types.map (·.row)).zip ((Run.ofLengths 0 (m.types.map (·.fields.length))).zip
      (Run.ofLengths 0 (m.types.map (·.methods.length))))).mapM (fun (row, fields, methods) =>
        (ModuleImage.ofDraft m rows d b record?).typeDef symbols? maxBodySize
          (Run.ofLengths 0 ((m.types.flatMap TypeDef.methods).map fun method : MethodDef =>
            method.params.length)) row fields
          methods) = .ok found ↔
      found = m.types.map (TypeDef.reread m) ∧ ∀ t ∈ m.types, ∀ method ∈ t.methods,
        method.AllBodies (MethodBody.Readable m maxBodySize) := by
  have types := written.described.types
  have count := types.length_eq
  have fieldLengths : m.types.map (·.fields.length) = (rows.types.map (·.fields)).map List.length := by
    rw [List.map_map]
    exact map_eq_map types fun t own has => has.fields.length_eq
  have methodLengths : m.types.map (·.methods.length) = (m.types.map (·.methods)).map List.length := by
    rw [List.map_map]
    rfl
  have rowLengths : ∀ {α : Type} (f : MethodRows → α), m.types.map (·.methods.length) =
      (rows.types.map fun own => own.methods.map f).map List.length := by
    intro α f
    rw [List.map_map]
    refine map_eq_map types fun t own has => ?_
    change t.methods.length = (own.methods.map f).length
    rw [List.length_map]
    exact has.methods.length_eq
  have paramLengths : (m.types.flatMap (·.methods)).map (·.params.length) =
      (rows.methods.map (·.params)).map List.length := by
    rw [List.map_map]
    exact map_eq_map written.described.methods fun method own has => has.params.length_eq
  have whole : ∀ {α : Type} (f : MethodRows → α), rows.methods.map f =
      (rows.types.map fun own => own.methods.map f).flatten := by
    intro α f
    rw [ModuleRows.methods, List.map_flatMap]
    rfl
  refine Outcome.mapM_eq_ok_iff (List.forall₂_iff_get.mpr ⟨?_, fun index inside bound => ?_⟩)
  · simp only [List.length_zip, List.length_map, Run.length_ofLengths]
    omega
  · have place : index < rows.types.length := by omega
    have own := (List.forall₂_iff_get.mp types).2 index bound place
    have fieldRun : index < (Run.ofLengths 0 (m.types.map (·.fields.length))).length := by
      rw [Run.length_ofLengths, List.length_map]
      exact bound
    have methodRun : index < (Run.ofLengths 0 (m.types.map (·.methods.length))).length := by
      rw [Run.length_ofLengths, List.length_map]
      exact bound
    have slices : ∀ {α : Type} (f : MethodRows → α),
        (Run.ofLengths 0 (m.types.map (·.methods.length)))[index].slice (rows.methods.map f) =
          rows.types[index].methods.map f := by
      intro α f
      rw [whole f, Run.slice_flatten (rowLengths f) methodRun (by rw [List.length_map]; exact place),
        List.getElem_map]
    have ownMethods : (Run.ofLengths 0 (m.types.map (·.methods.length)))[index].slice
        (m.types.flatMap (·.methods)) = m.types[index].methods := by
      rw [List.flatMap_def, Run.slice_flatten methodLengths methodRun (by rw [List.length_map]; exact bound),
        List.getElem_map]
    intro answer
    simp only [List.get_eq_getElem, List.getElem_zip, List.getElem_map] at own ⊢
    refine typeDef_eq_ok written shows' own ?_ (slices (·.row)) rfl ?_ (fun position method same => ?_) answer
    · change Run.slice _ (rows.types.flatMap (·.fields)) = _
      rw [List.flatMap_def, Run.slice_flatten fieldLengths fieldRun (by rw [List.length_map]; exact place),
        List.getElem_map]
    · change (Run.slice _ _).map (fun run : Run => run.slice (rows.methods.flatMap (·.params))) = _
      have runs := Run.map_slice_ofLengths [] (rows.methods.map (·.params))
      rw [← paramLengths] at runs
      rw [Run.map_slice, List.flatMap_def]
      exact (congrArg (Run.slice _) runs).trans (slices (·.params))
    · rw [← ownMethods] at same
      exact tells _ _ (Run.getElem?_of_slice same)

theorem assemblyIdentity_eq {a : AssemblyIdentity} {row : AssemblyRow}
    (shows' : (ModuleImage.ofDraft m rows d b record?).Shows d) (has : d.HasAssembly a row) :
    (ModuleImage.ofDraft m rows d b record?).assemblyIdentity row = .ok a := by
  unfold ModuleImage.assemblyIdentity
  rw [shows'.strings _ _ has.name, Outcome.ok_bind, shows'.blobs _ _ has.publicKey, Outcome.ok_bind,
    shows'.strings _ _ has.culture, Outcome.ok_bind, has.version, has.flags, has.hashAlgorithm]
  rfl

theorem assemblyRef_eq {a : AssemblyRef} {row : AssemblyRefRow}
    (shows' : (ModuleImage.ofDraft m rows d b record?).Shows d) (has : d.HasAssemblyRef a row) :
    (ModuleImage.ofDraft m rows d b record?).assemblyRef row = .ok a := by
  unfold ModuleImage.assemblyRef
  rw [shows'.strings _ _ has.name, Outcome.ok_bind, shows'.blobs _ _ has.key, Outcome.ok_bind,
    shows'.strings _ _ has.culture, Outcome.ok_bind, shows'.blobs _ _ has.hash, Outcome.ok_bind, has.version, has.flags]
  rfl

theorem typeRef_eq {r : TypeRef} {row : TypeRefRow} (shows' : (ModuleImage.ofDraft m rows d b record?).Shows d)
    (has : d.HasTypeRef m r row) :
    (ModuleImage.ofDraft m rows d b record?).typeRef row = .ok { r with definition? := none } := by
  unfold ModuleImage.typeRef
  rw [shows'.strings _ _ has.namespaceName, Outcome.ok_bind, shows'.strings _ _ has.name, Outcome.ok_bind,
    (CodedIndex.ofToken_eq_ok has.scope.coded).1]
  rfl

theorem memberRef_eq {r : MemberRef} {row : MemberRefRow} (shows' : (ModuleImage.ofDraft m rows d b record?).Shows d)
    (has : d.HasMemberRef m r row) :
    (ModuleImage.ofDraft m rows d b record?).memberRef row = .ok { r with definition? := none } := by
  unfold ModuleImage.memberRef
  rw [shows'.strings _ _ has.name, Outcome.ok_bind, shows'.blobs _ _ has.signature, Outcome.ok_bind,
    (CodedIndex.ofToken_eq_ok has.parent.coded).1]
  rfl

/-- The image of a module is read as the normal form of the module, but for its symbols. -/
theorem module_eq_ok (written : Written m rows d b) (shows' : (ModuleImage.ofDraft m rows d b record?).Shows d)
    {symbols? : Option SymbolImage} (tells : ∀ position method,
      (m.types.flatMap (·.methods))[position]? = some method → Tells m symbols? position method) (found : Module) :
    (ModuleImage.ofDraft m rows d b record?).module symbols? maxBodySize = .ok found ↔
      found = { m.reread with documents := [], entryPoint := .null, symbols? := none } ∧
        ∀ t ∈ m.types, ∀ method ∈ t.methods, method.AllBodies (MethodBody.Readable m maxBodySize) := by
  have described := written.described
  have typeRefs : (ModuleImage.ofDraft m rows d b record?).typeRefs.mapM
      (ModuleImage.ofDraft m rows d b record?).typeRef = .ok (m.typeRefs.map ({ · with definition? := none })) := by
    refine Outcome.mapM_eq_ok.mpr (List.forall₂_map_right_iff.mpr ?_)
    exact described.typeRefs.flip.imp fun row r has => typeRef_eq shows' has
  have memberRefs : (ModuleImage.ofDraft m rows d b record?).memberRefs.mapM
      (ModuleImage.ofDraft m rows d b record?).memberRef = .ok (m.memberRefs.map ({ · with definition? := none })) := by
    refine Outcome.mapM_eq_ok.mpr (List.forall₂_map_right_iff.mpr ?_)
    exact described.memberRefs.flip.imp fun row r has => memberRef_eq shows' has
  have assemblyRefs : (ModuleImage.ofDraft m rows d b record?).assemblyRefs.mapM
      (ModuleImage.ofDraft m rows d b record?).assemblyRef = .ok m.assemblyRefs :=
    Outcome.mapM_eq_ok.mpr (described.assemblyRefs.flip.imp fun row a has => assemblyRef_eq shows' has)
  have signatures : (ModuleImage.ofDraft m rows d b record?).signatures.mapM
      (fun row => (ModuleImage.ofDraft m rows d b record?).blob row.signature) = .ok m.localSignatures :=
    Outcome.mapM_eq_ok.mpr (described.signatures.flip.imp fun row blob has => shows'.blobs _ _ has)
  have assembly : (ModuleImage.ofDraft m rows d b record?).assembly?.mapM
      (ModuleImage.ofDraft m rows d b record?).assemblyIdentity = .ok m.assembly? := by
    have stored := described.assembly
    change rows.assembly.head?.mapM _ = _
    cases present : m.assembly? with
    | none =>
      rw [present, Option.toList_none, List.forall₂_nil_left_iff] at stored
      rw [stored]
      rfl
    | some a =>
      rw [present, Option.toList_some, List.forall₂_cons_left_iff] at stored
      obtain ⟨row, others, has, -, shape⟩ := stored
      rw [shape, List.head?_cons]
      change (do
        let identity ← (ModuleImage.ofDraft m rows d b record?).assemblyIdentity row
        pure (some identity)) = _
      rw [assemblyIdentity_eq shows' has]
      rfl
  have generation : (ModuleImage.ofDraft m rows d b record?).moduleRow.generation = m.generation :=
    described.module.generation
  have name := shows'.strings _ _ described.module.name
  have mvid := shows'.guids _ _ described.module.mvid
  unfold ModuleImage.module
  rw [show (ModuleImage.ofDraft m rows d b record?).string (ModuleImage.ofDraft m rows d b record?).moduleRow.name = _
    from name, Outcome.ok_bind]
  rw [show (ModuleImage.ofDraft m rows d b record?).guids.get (ModuleImage.ofDraft m rows d b record?).moduleRow.mvid = _
    from mvid, Outcome.ok_bind]
  rw [assembly, Outcome.ok_bind, assemblyRefs, Outcome.ok_bind, typeRefs, Outcome.ok_bind, memberRefs, Outcome.ok_bind,
    signatures, Outcome.ok_bind, fieldRuns_ofDraft written, Outcome.ok_bind, methodRuns_ofDraft written,
    Outcome.ok_bind, paramRuns_ofDraft written, Outcome.ok_bind, Outcome.bind_eq_ok]
  constructor
  · rintro ⟨types, read, last⟩
    obtain ⟨rfl, readable⟩ := (mapM_typeDef_eq_ok written shows' tells types).mp read
    refine ⟨?_, readable⟩
    rw [← Outcome.pure_eq_ok.mp last, generation]
    rfl
  · rintro ⟨rfl, readable⟩
    refine ⟨_, (mapM_typeDef_eq_ok written shows' tells _).mpr ⟨rfl, readable⟩, ?_⟩
    rw [generation]
    rfl

end

end CilWeaver
