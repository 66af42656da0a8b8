import CilWeaver.Module.FromImage
import CilWeaver.Proofs.ReadReferences
import CilWeaver.Proofs.StrictSignatures
import CilWeaver.Proofs.StrictSymbols

/-!
Strict readers of module images and of the module that an image describes. Rows are looked up by their numbers less
one, and the rows of an owner are a slice of the rows of their table.
-/

namespace CilWeaver

open Partly (Gives minus slice)

namespace Run

def strictFromRow (column : ListColumn) (total : Nat) : (row : Nat) → List Nat → Partly (List Run)
  | _, [] => return []
  | row, start :: starts =>
    if start = 0 ∨ total + 1 < start then Partly.malformed (.listStart column row start total)
    else
      let stop := starts.head?.getD (total + 1)
      if stop < start ∨ total + 1 < stop then Partly.malformed (.listOrder column row)
      else do
        let first ← Partly.need (minus start 1)
        let behind ← Partly.need (minus stop 1)
        return ⟨first, behind⟩ :: (← strictFromRow column total (row + 1) starts)

theorem gives_fromRow (column : ListColumn) (total row : Nat) (starts : List Nat) :
    (strictFromRow column total row starts).Gives (fromRow column total row starts) := by
  induction starts generalizing row with
  | nil => exact .pure _
  | cons start starts ih =>
    refine .ite (fun _ => .malformed _) fun positive => .ite (fun _ => .malformed _) fun ordered => ?_
    refine .need (Partly.minus_of_le (by omega)) (.need (Partly.minus_of_le (by omega)) ?_)
    exact (ih (row + 1)).bind fun _ _ => .pure _

/-- The run is one of rows of a table. -/
def Within (total : Nat) (r : Run) : Prop := r.start ≤ r.stop ∧ r.stop ≤ total

theorem within_of_fromRow {column : ListColumn} {total row : Nat} {starts : List Nat} {runs : List Run}
    (h : fromRow column total row starts = .ok runs) : ∀ r ∈ runs, Within total r := by
  induction starts generalizing row runs with
  | nil =>
    cases h
    exact fun _ member => absurd member List.not_mem_nil
  | cons start starts ih =>
    obtain ⟨others, more, positive, ordered, rfl⟩ := fromRow_cons_eq_ok h
    have last := head_le_of_fromRow more
    refine List.forall_mem_cons.mpr ⟨⟨?_, ?_⟩, ih more⟩
    · dsimp only
      omega
    · dsimp only
      omega

theorem Within.slice {α : Type} {items : List α} {r : Run} (within : r.Within items.length) :
    Partly.slice items r.start r.stop = some (r.slice items) := Partly.slice_of_le within.1 within.2

end Run

namespace ModuleImage

variable (image : ModuleImage)

def strictFieldRuns : Partly (List Run) := Run.strictFromRow .fields image.fields.length 1 (image.typeDefs.map (·.firstField))

def strictMethodRuns : Partly (List Run) := Run.strictFromRow .methods image.methods.length 1 (image.typeDefs.map (·.firstMethod))

def strictParamRuns : Partly (List Run) := Run.strictFromRow .params image.params.length 1 (image.methods.map (·.firstParam))

def strictCheckIndices : Partly Unit := do
  Partly.of (image.typeRefs.zipIdx.forM fun (r, i) => image.checkReference false (.scope (i + 1)) r.scope)
  Partly.of (image.typeDefs.zipIdx.forM fun (r, i) => image.checkReference true (.baseType (i + 1)) r.baseType)
  Partly.of (image.memberRefs.zipIdx.forM fun (r, i) => image.checkReference false (.parent (i + 1)) r.parent)
  let _ ← image.strictFieldRuns
  let _ ← image.strictMethodRuns
  let _ ← image.strictParamRuns

def strictCheckCode (il : Bytes) : Partly Unit :=
  if il.isEmpty then return ()
  else if il.length < reservedCode then Partly.malformed .ilReserved
  else do
    if (← Partly.need (slice il 0 reservedCode)) == zeros reservedCode then return () else Partly.malformed .ilReserved

noncomputable def strictParseParts (data : Bytes) : Partly ModuleImage := do
  let root ← Root.strictParse data
  let required (name : String) : Partly Bytes := do
    match ← root.strictStream? data name with
    | some stream => return stream
    | none => Partly.malformed (.missingStream name)
  if (← root.strictStream? data StreamName.pdb).isSome then Partly.malformed .pdbStreamInModule
  let strings ← StringHeap.strictParse (← required StreamName.strings)
  let blobs ← BlobHeap.strictParse (← required StreamName.blobs)
  let guids ← Partly.of (GuidHeap.parse (← required StreamName.guids))
  let userStrings? ← (← root.strictStream? data StreamName.userStrings).mapM UserStringHeap.strictParse
  let il := (← root.strictStream? data StreamName.il).getD []
  strictCheckCode il
  let codeView? ← (← root.strictStream? data StreamName.codeView).mapM CodeViewRecord.strictParse
  let tables ← TableStream.strictParse Table.ofModule (← required StreamName.tables)
  let moduleRow ← Partly.of (singleModule (← tables.strictRows ModuleRow))
  let assembly? ← Partly.of (optionalAssembly (← tables.strictRows AssemblyRow))
  return {
    version := root.version, strings, userStrings?, blobs, guids, il, codeView?,
    layout := tables.layout, moduleRow, assembly?,
    typeRefs := ← tables.strictRows TypeRefRow
    typeDefs := ← tables.strictRows TypeDefRow
    fields := ← tables.strictRows FieldRow
    methods := ← tables.strictRows MethodDefRow
    params := ← tables.strictRows ParamRow
    memberRefs := ← tables.strictRows MemberRefRow
    signatures := ← tables.strictRows StandAloneSigRow
    assemblyRefs := ← tables.strictRows AssemblyRefRow }

noncomputable def strictParse (data : Bytes) : Partly ModuleImage := do
  let image ← strictParseParts data
  image.strictCheckIndices
  return image

def strictString (index : Nat) : Partly String := image.strings.strictGet index

def strictBlob (index : Nat) : Partly Bytes := image.blobs.strictGet index

def strictLiteral (index : Nat) : Partly String :=
  match image.userStrings? with
  | none => Partly.malformed .literalWithoutHeap
  | some heap => (heap.strictGet index).onResult (·.mapError fun _ => .malformed (.literalIndex index))

theorem gives_checkIndices : image.strictCheckIndices.Gives image.checkIndices := by
  have runs := Run.gives_fromRow
  refine (Gives.of _).bind fun _ _ => (Gives.of _).bind fun _ _ => (Gives.of _).bind fun _ _ => (runs _ _ _ _).bind fun _ _ => ?_
  exact (runs _ _ _ _).bind fun _ _ => (runs _ _ _ _).bind fun _ _ => .pure _

theorem gives_checkCode (il : Bytes) : (strictCheckCode il).Gives (checkCode il) := by
  unfold strictCheckCode checkCode
  by_cases empty : il.isEmpty = true
  · rw [if_pos empty, if_pos (by rw [empty, Bool.true_or])]
    exact .pure _
  · rw [if_neg empty]
    have only : (il.isEmpty || il.take reservedCode == zeros reservedCode) = (il.take reservedCode == zeros reservedCode) := by
      rw [Bool.eq_false_iff.mpr empty, Bool.false_or]
    rw [only]
    by_cases short : il.length < reservedCode
    · have other : ¬ (il.take reservedCode == zeros reservedCode) = true := by
        intro same
        have length := congrArg List.length (beq_iff_eq.mp same)
        rw [List.length_take, zeros, List.length_replicate] at length
        omega
      rw [if_pos short, if_neg other]
      exact .malformed _
    · rw [if_neg short]
      refine .need (Partly.slice_of_le (Nat.zero_le _) (Nat.le_of_not_lt short)) ?_
      exact .ite (fun _ => .pure _) fun _ => .malformed _

theorem gives_parseParts (data : Bytes) : (strictParseParts data).Gives (parseParts data) := by
  refine (Root.gives_parse data).bind fun root parsed => ?_
  have stream := (Root.within_of_parse parsed).gives_stream
  have required (name : String) : Gives (do
      match ← root.strictStream? data name with
      | some stream => return stream
      | none => Partly.malformed (.missingStream name) : Partly Bytes)
      (match root.stream? data name with
        | some stream => .ok stream
        | none => .error (.malformed (.missingStream name))) := by
    refine (stream name).bind_ok ?_
    cases root.stream? data name with
    | some stream => exact .pure stream
    | none => exact .malformed _
  refine (stream _).bind_ok (.check fun _ => (required _).bind fun _ _ => (StringHeap.gives_parse _).bind fun strings _ => ?_)
  refine (required _).bind fun _ _ => (BlobHeap.gives_parse _).bind fun blobs _ => (required _).bind fun _ _ => ?_
  refine (Gives.of _).bind fun guids _ => (stream _).bind_ok ?_
  refine (Gives.option_mapM fun data _ => UserStringHeap.gives_parse data).bind fun userStrings? _ => ?_
  refine (stream _).bind_ok ((gives_checkCode _).bind fun _ _ => (stream _).bind_ok ?_)
  refine (Gives.option_mapM fun data _ => CodeViewRecord.gives_parse data).bind fun codeView? _ => ?_
  refine (required _).bind fun _ _ => (TableStream.gives_parse _ _).bind fun tables placed => ?_
  have within := TableStream.within_of_parse placed
  refine (within.gives_rows _).bind fun _ _ => (Gives.of _).bind fun moduleRow _ => (within.gives_rows _).bind fun _ _ => ?_
  refine (Gives.of _).bind fun assembly? _ => (within.gives_rows _).bind fun typeRefs _ => ?_
  refine (within.gives_rows _).bind fun typeDefs _ => (within.gives_rows _).bind fun fields _ => ?_
  refine (within.gives_rows _).bind fun methods _ => (within.gives_rows _).bind fun params _ => ?_
  refine (within.gives_rows _).bind fun memberRefs _ => (within.gives_rows _).bind fun signatures _ => ?_
  exact (within.gives_rows _).bind fun assemblyRefs _ => .pure _

theorem gives_parse (data : Bytes) : (strictParse data).Gives (ModuleImage.parse data) :=
  (gives_parseParts data).bind fun image _ => image.gives_checkIndices.bind fun _ _ => .pure _

theorem gives_literal (index : Nat) : (image.strictLiteral index).Gives (image.literal index) := by
  unfold strictLiteral literal
  cases image.userStrings? with
  | none => exact .malformed _
  | some heap =>
    dsimp only
    have found := (heap.gives_get index).onResult (·.mapError fun _ => .malformed (.literalIndex index))
    cases get : heap.get index with
    | ok text =>
      rw [get] at found
      exact found
    | error e =>
      rw [get] at found
      exact found

end ModuleImage

/-! The module that an image describes -/

namespace ModuleImage

variable (image : ModuleImage)

def strictCheckOperands (method : String) (decoded : DecodedBody) : Partly Unit :=
  decoded.code.zipIdx.forM fun (i, index) =>
    match i.operand.token? with
    | none => return ()
    | some token =>
      if image.contains token then return ()
      else do
        let offset ← Partly.need decoded.offsets[index]?
        Partly.malformed (.operandDangling i.mnemonic method offset token)

def strictLocals (method : String) (token : Token) : Partly (List TypeSig) :=
  if token.isNull then return []
  else if token.isIn .standAloneSig && image.contains token then do
    let index ← Partly.need (minus token.row 1)
    let row ← Partly.need image.signatures[index]?
    SignatureReader.strictLocals.parse (← image.strictBlob row.signature)
  else Partly.malformed (.localsDangling method token)

noncomputable def strictBody (maxBodySize : Nat) (method : String) (address : UInt32) : Partly (MethodBody × DecodedBody) := do
  let start := address.toNat
  if start < reservedCode ∨ image.il.length ≤ start then
    Partly.malformed (.bodyOutside method start)
  let data ← Partly.need (slice image.il start image.il.length)
  let raw ← StoredBody.strictParse data
  if maxBodySize < raw.code.length then
    Partly.malformed (.bodyTooLong method raw.code.length maxBodySize)
  let code ← Partly.need (slice data raw.headerSize (raw.headerSize + raw.code.length))
  let decoded ← (Code.strictDecode image.strictLiteral code).onResult (inMethod method)
  image.strictCheckOperands method decoded
  let locals ← image.strictLocals method raw.localSignature
  let regions ← raw.clauses.mapM (Region.strictOfClause image.contains decoded method)
  let body : MethodBody :=
    { code := decoded.code, maxStack := raw.maxStack, initLocals := raw.initLocals,
      localSignature := raw.localSignature, locals, regions }
  return (body, decoded)

def strictAssemblyIdentity (row : AssemblyRow) : Partly AssemblyIdentity := do
  return {
    name := ← image.strictString row.name
    version := ⟨row.major, row.minor, row.build, row.revision⟩
    flags := row.flags
    hashAlgorithm := row.hashAlgorithm
    publicKey := ← image.strictBlob row.publicKey
    culture := ← image.strictString row.culture }

def strictAssemblyRef (row : AssemblyRefRow) : Partly AssemblyRef := do
  return {
    name := ← image.strictString row.name
    version := ⟨row.major, row.minor, row.build, row.revision⟩
    flags := row.flags
    key := ← image.strictBlob row.key
    culture := ← image.strictString row.culture
    hash := ← image.strictBlob row.hash }

def strictTypeRef (row : TypeRefRow) : Partly TypeRef := do
  let namespaceName ← image.strictString row.namespaceName
  return { scope := row.scope.token, namespaceName, name := ← image.strictString row.name }

def strictMemberRef (row : MemberRefRow) : Partly MemberRef := do
  let name ← image.strictString row.name
  return { parent := row.parent.token, name, signature := ← image.strictBlob row.signature }

def strictFieldDef (row : FieldRow) : Partly FieldDef := do
  return { flags := row.flags, name := ← image.strictString row.name, signature := ← image.strictBlob row.signature }

def strictParamDef (row : ParamRow) : Partly ParamDef := do
  return { flags := row.flags, sequence := row.sequence, name := ← image.strictString row.name }

noncomputable def strictBodyWithSymbols (symbols? : Option SymbolImage) (maxBodySize : Nat) (position : Nat) (method : String)
    (address : UInt32) : Partly (Option MethodBody) := do
  let found? ← if address == 0 then pure none else some <$> image.strictBody maxBodySize method address
  let bodySymbols? ←
    match symbols? with
    | none => pure none
    | some symbols => symbols.strictBodySymbols position (found?.map (·.2)) method
  return found?.map fun found => { found.1 with symbols? := bodySymbols? }

noncomputable def strictMethodDef (symbols? : Option SymbolImage) (maxBodySize : Nat) (owner : TypeDef) (position : Nat)
    (row : MethodDefRow) (params : Run) : Partly MethodDef := do
  let name ← image.strictString row.name
  let params ← (← Partly.need (slice image.params params.start params.stop)).mapM image.strictParamDef
  let body? ← image.strictBodyWithSymbols symbols? maxBodySize position (owner.methodText name) row.address
  return { flags := row.flags, implFlags := row.implFlags, name, signature := ← image.strictBlob row.signature, params, body? }

noncomputable def strictTypeDef (symbols? : Option SymbolImage) (maxBodySize : Nat) (paramRuns : List Run) (row : TypeDefRow)
    (fields methods : Run) : Partly TypeDef := do
  let namespaceName ← image.strictString row.namespaceName
  let name ← image.strictString row.name
  let baseType := if row.baseType.isNull then .null else row.baseType.token
  let fields ← (← Partly.need (slice image.fields fields.start fields.stop)).mapM image.strictFieldDef
  let owner : TypeDef := { flags := row.flags, namespaceName, name, baseType, fields, methods := [] }
  let methods ← (List.range' methods.start methods.length).mapM fun position => do
    let method ← Partly.need image.methods[position]?
    let params ← Partly.need paramRuns[position]?
    image.strictMethodDef symbols? maxBodySize owner position method params
  return { owner with methods }

noncomputable def strictModule (symbols? : Option SymbolImage) (maxBodySize : Nat) : Partly Module := do
  let name ← image.strictString image.moduleRow.name
  let mvid ← image.guids.strictGet image.moduleRow.mvid
  let assembly? ← image.assembly?.mapM image.strictAssemblyIdentity
  let assemblyRefs ← image.assemblyRefs.mapM image.strictAssemblyRef
  let typeRefs ← image.typeRefs.mapM image.strictTypeRef
  let memberRefs ← image.memberRefs.mapM image.strictMemberRef
  let localSignatures ← image.signatures.mapM fun row => image.strictBlob row.signature
  let fieldRuns ← image.strictFieldRuns
  let methodRuns ← image.strictMethodRuns
  let paramRuns ← image.strictParamRuns
  let types ← (image.typeDefs.zip (fieldRuns.zip methodRuns)).mapM fun (row, fields, methods) =>
    image.strictTypeDef symbols? maxBodySize paramRuns row fields methods
  return { name, runtimeVersion := image.version, mvid, generation := image.moduleRow.generation,
           assembly?, assemblyRefs, typeRefs, memberRefs, localSignatures, types }

variable {image}

theorem gives_string (index : Nat) : (image.strictString index).Gives (image.string index) := image.strings.gives_get index

theorem gives_blob (index : Nat) : (image.strictBlob index).Gives (image.blob index) := image.blobs.gives_get index

theorem gives_checkOperands {decoded : DecodedBody} (full : decoded.Full) (method : String) :
    (image.strictCheckOperands method decoded).Gives (image.checkOperands method decoded) := by
  refine Gives.forM_zipIdx full fun i offset index _ found => ?_
  dsimp only
  cases i.operand.token? with
  | none => exact .pure _
  | some token =>
    refine .ite (fun _ => .pure _) fun _ => ?_
    rw [Nat.zero_add]
    exact .need found (.malformed _)

theorem rowOf?_of_row {α : Type} {items : List α} {row : Nat} (positive : 1 ≤ row) :
    Module.rowOf? items row = items[row - 1]? := by
  cases row with
  | zero => exact absurd positive (by decide)
  | succ row => rfl

theorem contains_signature (counted : image.layout.rows .standAloneSig = image.signatures.length) {token : Token}
    (table : token.isIn .standAloneSig = true) :
    image.contains token = true ↔ 1 ≤ token.row ∧ token.row ≤ image.signatures.length := by
  unfold contains
  rw [Token.table?_of_isIn table]
  simp only [counted, Bool.and_eq_true, decide_eq_true_eq]

/-- A signature is looked up in a row that the layout counts. -/
theorem gives_locals (counted : image.layout.rows .standAloneSig = image.signatures.length) (method : String) (token : Token) :
    (image.strictLocals method token).Gives (image.locals method token) := by
  unfold strictLocals ModuleImage.locals
  refine .ite (fun _ => .pure _) fun _ => ?_
  by_cases table : token.isIn .standAloneSig = true
  · rw [if_pos table, table, Bool.true_and]
    cases contained : image.contains token with
    | true =>
      have bounds := (contains_signature counted table).mp contained
      have inside : token.row - 1 < image.signatures.length := by omega
      rw [if_pos rfl, rowOf?_of_row bounds.1, List.getElem?_eq_getElem inside]
      refine .need (Partly.minus_of_le bounds.1) (.need (List.getElem?_eq_getElem inside) ?_)
      exact (gives_blob _).bind fun _ _ => SignatureReader.agrees_locals.parse _
    | false =>
      have missing : Module.rowOf? image.signatures token.row = none := by
        cases found : Module.rowOf? image.signatures token.row with
        | none => rfl
        | some row =>
          have named := (contains_signature counted table).mpr (row_le_of_rowOf? found)
          rw [contained] at named
          cases named
      rw [if_neg Bool.false_ne_true, missing]
      exact .malformed _
  · rw [if_neg table, Bool.eq_false_iff.mpr table, Bool.false_and, if_neg Bool.false_ne_true]
    exact .malformed _

theorem gives_body (counted : image.layout.rows .standAloneSig = image.signatures.length) (maxBodySize : Nat) (method : String)
    (address : UInt32) : (image.strictBody maxBodySize method address).Gives (image.body maxBodySize method address) := by
  refine .check fun inside => .need (Partly.slice_length (by omega)) ((StoredBody.gives_parse _).bind fun raw parsed => ?_)
  have located := StoredBody.located_of_parse parsed
  refine .check fun _ => .need located.slice ?_
  obtain ⟨-, -, -, -, short⟩ := located
  refine ((Code.gives_decode image.gives_literal short).onResult (inMethod method)).bind fun decoded found => ?_
  have full := DecodedBody.full_of_decode (inMethod_eq_ok.mp found)
  refine (gives_checkOperands full method).bind fun _ _ => (gives_locals counted method _).bind fun _ _ => ?_
  exact (Gives.mapM fun c _ => Region.gives_ofClause full image.contains method c).bind fun _ _ => .pure _

theorem full_of_body {maxBodySize : Nat} {method : String} {address : UInt32} {found : MethodBody × DecodedBody}
    (read : image.body maxBodySize method address = .ok found) : found.2.Full := by
  obtain ⟨⟨raw, -, decode, -⟩, -⟩ := @readsBody_of_body image none maxBodySize method address found read
  exact DecodedBody.full_of_decode decode

theorem gives_bodyWithSymbols (counted : image.layout.rows .standAloneSig = image.signatures.length) (symbols? : Option SymbolImage)
    (maxBodySize position : Nat) (method : String) (address : UInt32) :
    (image.strictBodyWithSymbols symbols? maxBodySize position method address).Gives
      (image.bodyWithSymbols symbols? maxBodySize position method address) := by
  have rest (found? : Option (MethodBody × DecodedBody)) (full : ∀ found ∈ found?, found.2.Full) : Gives (do
      let bodySymbols? ←
        match symbols? with
        | none => pure none
        | some symbols => symbols.strictBodySymbols position (found?.map (·.2)) method
      return found?.map fun found => { found.1 with symbols? := bodySymbols? } : Partly (Option MethodBody)) (do
      let bodySymbols? ←
        match symbols? with
        | none => pure none
        | some symbols => symbols.bodySymbols position (found?.map (·.2)) method
      return found?.map fun found => { found.1 with symbols? := bodySymbols? }) := by
    cases symbols? with
    | none => exact .pure _
    | some symbols =>
      refine (symbols.gives_bodySymbols position (fun decoded member => ?_) method).bind fun _ _ => .pure _
      obtain ⟨found, among, rfl⟩ := Option.mem_map.mp member
      exact full found among
  refine .ite (fun _ => rest none fun found member => by cases member) fun _ => ?_
  refine Gives.bind (Gives.map (gives_body counted maxBodySize method address)) fun found? read => rest found? ?_
  intro found member
  cases whole : image.body maxBodySize method address with
  | error e =>
    rw [whole] at read
    cases read
  | ok own =>
    rw [whole] at read
    cases read
    cases member
    exact full_of_body whole

/-- The runs of the rows that the members of an image come from. -/
structure HasRuns (image : ModuleImage) (paramRuns : List Run) (fields methods : Run) : Prop where
  fields : fields.Within image.fields.length
  methods : methods.Within image.methods.length
  params : ∀ r ∈ paramRuns, r.Within image.params.length
  count : paramRuns.length = image.methods.length

theorem gives_methodDef (counted : image.layout.rows .standAloneSig = image.signatures.length) (symbols? : Option SymbolImage)
    (maxBodySize : Nat) (owner : TypeDef) (position : Nat) (row : MethodDefRow) {params : Run}
    (within : params.Within image.params.length) :
    (image.strictMethodDef symbols? maxBodySize owner position row params).Gives
      (image.methodDef symbols? maxBodySize owner position row params) := by
  refine (gives_string _).bind fun _ _ => .need within.slice ((Gives.mapM fun row _ => ?_).bind fun _ _ => ?_)
  · exact (gives_string _).bind fun _ _ => .pure _
  · exact (gives_bodyWithSymbols counted _ _ _ _ _).bind fun _ _ => (gives_blob _).bind fun _ _ => .pure _

theorem gives_typeDef (counted : image.layout.rows .standAloneSig = image.signatures.length) (symbols? : Option SymbolImage)
    (maxBodySize : Nat) {paramRuns : List Run} (row : TypeDefRow) {fields methods : Run}
    (runs : image.HasRuns paramRuns fields methods) :
    (image.strictTypeDef symbols? maxBodySize paramRuns row fields methods).Gives
      (image.typeDef symbols? maxBodySize paramRuns row fields methods) := by
  refine (gives_string _).bind fun _ _ => (gives_string _).bind fun _ _ => .need runs.fields.slice ?_
  refine (Gives.mapM fun row _ => (gives_string _).bind fun _ _ => (gives_blob _).bind fun _ _ => .pure _).bind fun _ _ => ?_
  have length {α : Type} {items : List α} (same : items.length = image.methods.length) :
      (methods.slice items).length = methods.length := by
    have within := runs.methods
    unfold Run.Within at within
    rw [Run.slice, List.length_take, List.length_drop, same, Run.length]
    omega
  have rows : methods.length = ((methods.slice image.methods).zip (methods.slice paramRuns)).length := by
    rw [List.length_zip, length rfl, length runs.count, Nat.min_self]
  dsimp only
  rw [rows]
  refine (Gives.mapM_range ?_).bind fun _ _ => .pure _
  rintro ⟨method, params⟩ index found
  obtain ⟨own, run⟩ := List.getElem?_zip_eq_some.mp found
  have listed := Run.getElem?_of_slice run
  have within := runs.params params (List.mem_of_getElem? listed)
  exact .need (Run.getElem?_of_slice own) (.need listed (gives_methodDef counted _ _ _ _ _ within))

theorem gives_module (counted : image.layout.rows .standAloneSig = image.signatures.length) (symbols? : Option SymbolImage)
    (maxBodySize : Nat) : (image.strictModule symbols? maxBodySize).Gives (image.module symbols? maxBodySize) := by
  refine (gives_string _).bind fun _ _ => (image.guids.gives_get _).bind fun _ _ => (Gives.option_mapM fun row _ => ?_).bind
    fun _ _ => (Gives.mapM fun row _ => ?_).bind fun _ _ => (Gives.mapM fun row _ => ?_).bind fun _ _ =>
      (Gives.mapM fun row _ => ?_).bind fun _ _ => (Gives.mapM fun row _ => gives_blob _).bind fun _ _ => ?_
  · exact (gives_string _).bind fun _ _ => (gives_blob _).bind fun _ _ => (gives_string _).bind fun _ _ => .pure _
  · exact (gives_string _).bind fun _ _ => (gives_blob _).bind fun _ _ => (gives_string _).bind fun _ _ =>
      (gives_blob _).bind fun _ _ => .pure _
  · exact (gives_string _).bind fun _ _ => (gives_string _).bind fun _ _ => .pure _
  · exact (gives_string _).bind fun _ _ => (gives_blob _).bind fun _ _ => .pure _
  refine (Run.gives_fromRow _ _ _ _).bind fun fieldRuns ofFields => (Run.gives_fromRow _ _ _ _).bind fun methodRuns ofMethods =>
    (Run.gives_fromRow _ _ _ _).bind fun paramRuns ofParams => (Gives.mapM ?_).bind fun _ _ => .pure _
  rintro ⟨row, fields, methods⟩ member
  obtain ⟨own, run⟩ := List.of_mem_zip (List.of_mem_zip member).2
  have count := Run.length_fromRow ofParams
  rw [List.length_map] at count
  exact gives_typeDef counted symbols? maxBodySize row
    ⟨Run.within_of_fromRow ofFields _ own, Run.within_of_fromRow ofMethods _ run, Run.within_of_fromRow ofParams, count⟩

end ModuleImage

end CilWeaver
