import CilWeaver.Image.ModuleStreams
import CilWeaver.Proofs.Bodies
import CilWeaver.Proofs.ParallelWriters
import CilWeaver.Proofs.Rows
import CilWeaver.Proofs.StrictEncoding

/-!
Strict writers of method bodies and of the rows of a module. Positions of a body are looked up in its layout, the lengths
of blocks are differences of offsets, and sizes and rows fit the fields that they are stored in.
-/

namespace CilWeaver

open Partly (minus narrow)
open StrictWriter (Agrees Presumes)
open Code

namespace Region

def strictClauseKind (offsets : Array Nat) : RegionKind → Option (ClauseFlags × UInt32)
  | .catches type => some ({}, type.value)
  | .filter start => do return ({ filter := true }, .ofNat (← offsets[start]?))
  | .cleanup => some ({ cleanup := true }, 0)
  | .fault => some ({ fault := true }, 0)

def strictToClause (offsets : Array Nat) (r : Region) : Option Clause := do
  let (flags, argument) ← strictClauseKind offsets r.kind
  let tryStart ← offsets[r.tryStart]?
  let tryEnd ← offsets[r.tryEnd]?
  let tryLength ← minus tryEnd tryStart
  let handlerStart ← offsets[r.handlerStart]?
  let handlerEnd ← offsets[r.handlerEnd]?
  let handlerLength ← minus handlerEnd handlerStart
  return { flags, tryOffset := .ofNat tryStart, tryLength := .ofNat tryLength, handlerOffset := .ofNat handlerStart,
           handlerLength := .ofNat handlerLength, argument }

theorem strictToClause_eq {code : List Instruction} {r : Region} (inside : Inside code.length r) :
    strictToClause (offsets code).toArray r = some (toClause (offsets code).toArray r) := by
  have place {index : Nat} (bound : index ≤ code.length) :
      (offsets code).toArray[index]? = some (codeSize (code.take index)) := by
    rw [List.getElem?_toArray, getElem?_offsets code bound]
  have kind : strictClauseKind (offsets code).toArray r.kind =
      some ((toClause (offsets code).toArray r).flags, (toClause (offsets code).toArray r).argument) := by
    unfold toClause
    cases shape : r.kind with
    | filter start =>
      simp only [strictClauseKind, place (Nat.le_of_lt (inside.filter start shape))]
      rfl
    | _ => rfl
  obtain ⟨⟨tried, tryEnd⟩, ⟨handled, handlerEnd⟩, -⟩ := inside
  have tryStart := Nat.le_trans (Nat.le_of_lt tried) tryEnd
  have handlerStart := Nat.le_trans (Nat.le_of_lt handled) handlerEnd
  have tryLength := Partly.minus_of_le (codeSize_take_mono code (Nat.le_of_lt tried))
  have handlerLength := Partly.minus_of_le (codeSize_take_mono code (Nat.le_of_lt handled))
  unfold strictToClause
  simp only [kind, place tryStart, place tryEnd, place handlerStart, place handlerEnd, tryLength, handlerLength,
    Option.bind_eq_bind, Option.bind_some, Option.pure_def]
  unfold toClause
  simp only [table_offset code tryStart, table_offset code tryEnd, table_offset code handlerStart,
    table_offset code handlerEnd]

end Region

namespace RawBody

def strictSmallClause (c : Clause) : Option Bytes := do
  let tryOffset ← narrow 16 c.tryOffset.toNat
  let tryLength ← narrow 8 c.tryLength.toNat
  let handlerOffset ← narrow 16 c.handlerOffset.toNat
  let handlerLength ← narrow 8 c.handlerLength.toNat
  return leBytes 2 c.flags.number ++ leBytes 2 tryOffset ++ leBytes 1 tryLength ++ leBytes 2 handlerOffset
    ++ leBytes 1 handlerLength ++ u32Bytes c.argument

def strictClauseSection (clauses : List Clause) : Option (Except Defect Bytes) :=
  let smallSize := 4 + 12 * clauses.length
  let fatSize := 4 + 24 * clauses.length
  if smallSize ≤ 0xFF ∧ clauses.all Clause.fitsSmall then do
    let size ← narrow 8 smallSize
    let small ← clauses.mapM strictSmallClause
    return .ok (UInt8.ofNat sectionClauses :: leBytes 1 size ++ leBytes 2 0 ++ small.flatten)
  else if 0x00FFFFFF < fatSize then return .error (.tooManyClauses clauses.length)
  else do
    let size ← narrow 24 fatSize
    return .ok (UInt8.ofNat (sectionClauses + sectionFat) :: leBytes 3 size ++ clauses.flatMap fatClause)

/-- The size of a tiny body shares its byte with two other bits. -/
def strictEncode (start : Nat) (b : RawBody) : Option (Except Defect Bytes) :=
  if b.fitsTiny then do return .ok (UInt8.ofNat (4 * (← narrow 6 b.code.length) + tinyFormat) :: b.code)
  else if 2 ^ 32 ≤ b.code.length then return .error .codeTooLarge
  else
    let front := b.fatHeader ++ b.code
    if b.clauses.isEmpty then return .ok front
    else do
      let clauses ← strictClauseSection b.clauses
      return clauses.map fun clauses => front ++ zeros (padding 4 (start + front.length)) ++ clauses

theorem strictSmallClause_eq {c : Clause} (fits : c.fitsSmall = true) : strictSmallClause c = some (smallClause c) := by
  unfold Clause.fitsSmall at fits
  simp only [Bool.and_eq_true, decide_eq_true_eq, UInt32.le_iff_toNat_le] at fits
  obtain ⟨⟨⟨tryOffset, tryLength⟩, handlerOffset⟩, handlerLength⟩ := fits
  have first : narrow 16 c.tryOffset.toNat = some c.tryOffset.toNat := Partly.narrow_of_lt (Nat.lt_succ_of_le tryOffset)
  have second : narrow 8 c.tryLength.toNat = some c.tryLength.toNat := Partly.narrow_of_lt (Nat.lt_succ_of_le tryLength)
  have third : narrow 16 c.handlerOffset.toNat = some c.handlerOffset.toNat :=
    Partly.narrow_of_lt (Nat.lt_succ_of_le handlerOffset)
  have fourth : narrow 8 c.handlerLength.toNat = some c.handlerLength.toNat :=
    Partly.narrow_of_lt (Nat.lt_succ_of_le handlerLength)
  unfold strictSmallClause
  rw [first, second, third, fourth]
  rfl

theorem strictClauseSection_eq (clauses : List Clause) : strictClauseSection clauses = some (clauseSection clauses) := by
  unfold strictClauseSection clauseSection
  dsimp only
  split
  · rename_i small
    have size : narrow 8 (4 + 12 * clauses.length : Nat) = some (4 + 12 * clauses.length) :=
      Partly.narrow_of_lt (Nat.lt_succ_of_le small.1)
    have each := Partly.mapM_eq_some fun c member => strictSmallClause_eq (List.all_eq_true.mp small.2 c member)
    rw [size, each, List.flatMap_def]
    rfl
  · split
    · rfl
    · rename_i small
      have size : narrow 24 (4 + 24 * clauses.length : Nat) = some (4 + 24 * clauses.length) :=
        Partly.narrow_of_lt (Nat.lt_succ_of_le (Nat.le_of_not_lt small))
      rw [size]
      rfl

theorem strictEncode_eq (start : Nat) (b : RawBody) : b.strictEncode start = some (b.encode start) := by
  unfold strictEncode encode
  split
  · rename_i tiny
    have short : b.code.length ≤ tinyCodeMax := by
      simp only [fitsTiny, Bool.and_eq_true, decide_eq_true_eq] at tiny
      exact tiny.1.1.1.1
    have size : narrow 6 b.code.length = some b.code.length := Partly.narrow_of_lt (Nat.lt_succ_of_le short)
    rw [size]
    rfl
  · split
    · rfl
    · dsimp only
      split
      · rfl
      · rw [strictClauseSection_eq]
        cases clauseSection b.clauses <;> rfl

end RawBody

namespace ModuleWriter

def strictAddBody (m : Module) (context : String) (b : MethodBody) : StrictWriter ModuleDraft (List Nat) := do
  StrictWriter.of (check context (b.checkIndices m.documents.length))
  StrictWriter.of (check context (bodyTokenCheck m b))
  let encoded ← Code.strictEncode (fun text => .of (addLiteral text)) context b.code
  let clauses ← StrictWriter.need (b.regions.mapM (Region.strictToClause encoded.offsets.toArray))
  let raw : RawBody :=
    { code := encoded.bytes, maxStack := b.maxStack, initLocals := b.initLocals,
      localSignature := b.localSignature, clauses }
  let d ← get
  match ← StrictWriter.need (raw.strictEncode d.il.length) with
  | .ok bytes =>
    set { d with il := d.il ++ bytes }
    return encoded.offsets
  | .error defect => throw (.emission context (.clauses defect))

def strictAddMethodBody (m : Module) (context : String) :
    Option MethodBody → StrictWriter ModuleDraft (UInt32 × Option (List Nat))
  | none => return (0, none)
  | some body => do
    modify fun d => { d with il := padTo 4 d.il }
    let address := (← get).il.length
    if 2 ^ 32 ≤ address then throw (.emission context .codeTooLarge)
    return (.ofNat address, some (← strictAddBody m context body))

/-- The row of a method holds the row of its first parameter, a number of 32 bits. -/
def strictMethodRows (m : Module) (owner : TypeDef) (firstParam : Nat) (d : MethodDef) :
    StrictWriter ModuleDraft MethodRows := do
  let (address, offsets?) ← strictAddMethodBody m (owner.methodText d.name) d.body?
  let name ← .of (addString d.name)
  let signature ← .of (addBlob d.signature)
  let firstParam ← StrictWriter.need (narrow 32 firstParam)
  let params ← .of (d.params.mapM paramRow)
  let row : MethodDefRow := { address, implFlags := d.implFlags, flags := d.flags, name, signature, firstParam }
  return ⟨row, params, offsets?⟩

def strictAllMethodRows (m : Module) (owner : TypeDef) :
    (firstParam : Nat) → List MethodDef → StrictWriter ModuleDraft (List MethodRows)
  | _, [] => return []
  | firstParam, d :: ds => do
    let rows ← strictMethodRows m owner firstParam d
    return rows :: (← strictAllMethodRows m owner (firstParam + d.params.length) ds)

def strictTypeRows (m : Module) (firstField firstMethod firstParam : Nat) (t : TypeDef) :
    StrictWriter ModuleDraft TypeRows := do
  let baseType ← .of (baseType m t)
  let name ← .of (addString t.name)
  let namespaceName ← .of (addString t.namespaceName)
  let firstField ← StrictWriter.need (narrow 32 firstField)
  let firstMethod ← StrictWriter.need (narrow 32 firstMethod)
  let fields ← .of (t.fields.mapM fieldRow)
  let methods ← strictAllMethodRows m t firstParam t.methods
  return ⟨{ flags := t.flags, name, namespaceName, baseType, firstField, firstMethod }, fields, methods⟩

def strictAllTypeRows (m : Module) :
    (firstField firstMethod firstParam : Nat) → List TypeDef → StrictWriter ModuleDraft (List TypeRows)
  | _, _, _, [] => return []
  | firstField, firstMethod, firstParam, t :: ts => do
    let rows ← strictTypeRows m firstField firstMethod firstParam t
    let params := (t.methods.map (·.params.length)).sum
    return rows :: (← strictAllTypeRows m (firstField + t.fields.length) (firstMethod + t.methods.length)
      (firstParam + params) ts)

/-- The offsets of a body are numbers of 32 bits, and the distances of its branches fit. -/
structure Encodable (b : MethodBody) : Prop where
  small : Code.check b.code = .ok () → codeSize (promote b.code) < 2 ^ 32
  reaches : Code.check b.code = .ok () → Reaches (promote b.code)

theorem ok_of_check {context : String} {result : Except EmissionFault Unit} {d d' : ModuleDraft}
    (passed : check context result d = .ok () d') : result = .ok () := by
  unfold check at passed
  split at passed
  · rfl
  · cases passed

theorem agrees_addBody (m : Module) (context : String) {b : MethodBody} (encodable : Encodable b) :
    Agrees (strictAddBody m context b) (addBody m context b) := by
  rw [addBody_eq]
  refine (Agrees.of _).bind_of_answer fun _ d d' checked => (Agrees.of _).bind fun _ => ?_
  have literals (text : String) : Agrees (StrictWriter.of (addLiteral text)) (addLiteral text) := .of _
  refine (agrees_encode literals encodable.small encodable.reaches).bind_of_answer fun encoded d₁ d₂ run => ?_
  have laid : encoded.offsets = offsets (promote b.code) := by
    obtain ⟨-, _, -, -, rfl⟩ := encode_eq_ok.mp run
    rfl
  have clauses : b.regions.mapM (Region.strictToClause encoded.offsets.toArray) =
      some (b.regions.map (Region.toClause encoded.offsets.toArray)) := by
    have length : (promote b.code).length = b.code.length := (widened_promote b.code).length_eq.symm
    have placed := MethodBody.checkIndices_eq_ok.mp (ok_of_check checked)
    rw [laid]
    exact Partly.mapM_eq_some fun r member => Region.strictToClause_eq (length ▸ placed.regions r member)
  refine .need clauses (StrictWriter.agrees_get.bind fun d => .need (RawBody.strictEncode_eq _ _) ?_)
  change Agrees (match (rawOf b encoded).encode d.il.length with | .ok bytes => _ | .error defect => _)
    (match (rawOf b encoded).encode d.il.length with | .ok bytes => _ | .error defect => _)
  cases (rawOf b encoded).encode d.il.length with
  | ok bytes => exact (StrictWriter.agrees_set _).bind fun _ => .pure _
  | error defect => exact .throw _

theorem agrees_addMethodBody (m : Module) (context : String) {body? : Option MethodBody}
    (encodable : ∀ b, body? = some b → Encodable b) :
    Agrees (strictAddMethodBody m context body?) (addMethodBody m context body?) := by
  cases body? with
  | none => exact .pure _
  | some b =>
    refine (StrictWriter.agrees_modify _).bind fun _ => StrictWriter.agrees_get.bind fun d => .ite (fun _ => ?_) fun _ => ?_
    · exact (Agrees.throw _).bind fun _ => (agrees_addBody m context (encodable b rfl)).bind fun _ => .pure _
    · exact (agrees_addBody m context (encodable b rfl)).bind fun _ => .pure _

theorem agrees_methodRows (m : Module) (owner : TypeDef) (firstParam : Nat) (d : MethodDef) (small : firstParam < 2 ^ 32)
    (encodable : ∀ b, d.body? = some b → Encodable b) :
    Agrees (strictMethodRows m owner firstParam d) (methodRows m owner firstParam d) :=
  (agrees_addMethodBody m _ encodable).bind fun _ => (Agrees.of _).bind fun _ => (Agrees.of _).bind fun _ =>
    .need (Partly.narrow_of_lt small) ((Agrees.of _).bind fun _ => .pure _)

theorem agrees_allMethodRows (m : Module) (owner : TypeDef) (firstParam : Nat) {methods : List MethodDef}
    (small : firstParam + (methods.map (·.params.length)).sum < 2 ^ 32)
    (encodable : ∀ d ∈ methods, ∀ b, d.body? = some b → Encodable b) :
    Agrees (strictAllMethodRows m owner firstParam methods) (allMethodRows m owner firstParam methods) := by
  induction methods generalizing firstParam with
  | nil => exact .pure []
  | cons d methods ih =>
    rw [List.map_cons, List.sum_cons] at small
    have others := ih (firstParam + d.params.length) (by omega)
      fun other member => encodable other (List.mem_cons_of_mem d member)
    have first := agrees_methodRows m owner firstParam d (by omega) (encodable d List.mem_cons_self)
    exact first.bind fun _ => others.bind fun _ => .pure _

theorem agrees_typeRows (m : Module) (firstField firstMethod firstParam : Nat) {t : TypeDef}
    (fields : firstField < 2 ^ 32) (methods : firstMethod < 2 ^ 32)
    (params : firstParam + (t.methods.map (·.params.length)).sum < 2 ^ 32)
    (encodable : ∀ d ∈ t.methods, ∀ b, d.body? = some b → Encodable b) :
    Agrees (strictTypeRows m firstField firstMethod firstParam t) (typeRows m firstField firstMethod firstParam t) :=
  (Agrees.of _).bind fun _ => (Agrees.of _).bind fun _ => (Agrees.of _).bind fun _ => .need (Partly.narrow_of_lt fields)
    (.need (Partly.narrow_of_lt methods) ((Agrees.of _).bind fun _ =>
      (agrees_allMethodRows m t firstParam params encodable).bind fun _ => .pure _))

theorem agrees_allTypeRows (m : Module) (firstField firstMethod firstParam : Nat) {types : List TypeDef}
    (fields : firstField + (types.map (·.fields.length)).sum < 2 ^ 32)
    (methods : firstMethod + (types.map (·.methods.length)).sum < 2 ^ 32)
    (params : firstParam + (types.map fun t => (t.methods.map (·.params.length)).sum).sum < 2 ^ 32)
    (encodable : ∀ t ∈ types, ∀ d ∈ t.methods, ∀ b, d.body? = some b → Encodable b) :
    Agrees (strictAllTypeRows m firstField firstMethod firstParam types)
      (allTypeRows m firstField firstMethod firstParam types) := by
  induction types generalizing firstField firstMethod firstParam with
  | nil => exact .pure []
  | cons t types ih =>
    rw [List.map_cons, List.sum_cons] at fields methods params
    have others := ih (firstField + t.fields.length) (firstMethod + t.methods.length)
      (firstParam + (t.methods.map (·.params.length)).sum) (by omega) (by omega) (by omega)
      fun other member => encodable other (List.mem_cons_of_mem t member)
    have first := agrees_typeRows m firstField firstMethod firstParam (by omega) (by omega) (by omega)
      (encodable t List.mem_cons_self)
    exact first.bind fun _ => others.bind fun _ => .pure _

/-! A distance that does not fit -/

section

variable {b : MethodBody} (small : Code.check b.code = .ok () → codeSize (promote b.code) < 2 ^ 32)

include small

theorem presumes_addMethodBody (m : Module) (context : String) :
    Presumes (strictAddMethodBody m context (some b)) (Code.check b.code = .ok () → Reaches (promote b.code)) := by
  have body : Presumes (strictAddBody m context b) (Code.check b.code = .ok () → Reaches (promote b.code)) :=
    .bind_right fun _ => .bind_right fun _ => .bind_left fun s found gives accepted =>
      presumes_encode accepted (small accepted) s found gives
  exact .bind_right fun _ => .bind_right fun _ => .ite (.bind_right fun _ => body.bind_left) body.bind_left

theorem presumes_allMethodRows (m : Module) (owner : TypeDef) (firstParam : Nat) {methods : List MethodDef} {d : MethodDef}
    (member : d ∈ methods) (body : d.body? = some b) :
    Presumes (strictAllMethodRows m owner firstParam methods) (Code.check b.code = .ok () → Reaches (promote b.code)) := by
  induction methods generalizing firstParam with
  | nil => cases member
  | cons other methods ih =>
    rcases List.mem_cons.mp member with rfl | member
    · have method : Presumes (strictMethodRows m owner firstParam d)
          (Code.check b.code = .ok () → Reaches (promote b.code)) := by
        unfold strictMethodRows
        rw [body]
        exact (presumes_addMethodBody small m _).bind_left
      exact method.bind_left
    · exact .bind_right fun _ => (ih _ member).bind_left

theorem presumes_allTypeRows (m : Module) (firstField firstMethod firstParam : Nat) {types : List TypeDef} {t : TypeDef}
    {d : MethodDef} (type : t ∈ types) (member : d ∈ t.methods) (body : d.body? = some b) :
    Presumes (strictAllTypeRows m firstField firstMethod firstParam types)
      (Code.check b.code = .ok () → Reaches (promote b.code)) := by
  induction types generalizing firstField firstMethod firstParam with
  | nil => cases type
  | cons other types ih =>
    rcases List.mem_cons.mp type with rfl | type
    · refine .bind_left (.bind_right fun _ => .bind_right fun _ => .bind_right fun _ => ?_)
      exact .need_bind fun _ _ => .need_bind fun _ _ => .bind_right fun _ =>
        (presumes_allMethodRows small m t firstParam member body).bind_left
    · exact .bind_right fun _ => (ih _ _ _ type).bind_left

end

end ModuleWriter

open ModuleWriter in
def ModuleRows.strictOfModule (m : Module) : StrictWriter ModuleDraft ModuleRows := do
  .of (check m.name (entryPointCheck m))
  let module ← .of (moduleRow m)
  let typeRefs ← .of (m.typeRefs.zipIdx.mapM fun (r, position) => typeRefRow m r position)
  let types ← strictAllTypeRows m 1 1 1 m.types
  let memberRefs ← .of (m.memberRefs.zipIdx.mapM fun (r, position) => memberRefRow m r position)
  let signatures ← .of (m.localSignatures.mapM signatureRow)
  let assembly ← .of (m.assembly?.toList.mapM assemblyRow)
  let assemblyRefs ← .of (m.assemblyRefs.mapM assemblyRefRow)
  return { module, typeRefs, types, memberRefs, signatures, assembly, assemblyRefs }

/-- Counts of rows, and the row behind the last one, are numbers of 32 bits. -/
def Module.Counted (m : Module) : Prop := ∀ t, m.rows t + 1 < 2 ^ 32

theorem ModuleRows.agrees_ofModule {m : Module} (counted : m.Counted)
    (encodable : ∀ t ∈ m.types, ∀ d ∈ t.methods, ∀ b, d.body? = some b → ModuleWriter.Encodable b) :
    Agrees (strictOfModule m) (ofModule m) := by
  have fields := counted .field
  have methods := counted .methodDef
  have params := counted .param
  have total : m.rows .param = (m.types.map fun t => (t.methods.map (·.params.length)).sum).sum := by
    have listed : m.rows .param = ((m.methodList.map (·.2)).map (·.params.length)).sum := by
      rw [List.map_map]
      rfl
    rw [listed, methodList_map_snd, List.map_flatMap, List.flatMap_def, List.sum_flatten, List.map_map]
    rfl
  change (m.types.map (·.fields.length)).sum + 1 < _ at fields
  change (m.types.map (·.methods.length)).sum + 1 < _ at methods
  have types := ModuleWriter.agrees_allTypeRows m 1 1 1 (by omega) (by omega) (by omega) encodable
  refine (Agrees.of _).bind fun _ => (Agrees.of _).bind fun _ => (Agrees.of _).bind fun _ => types.bind fun _ => ?_
  refine (Agrees.of _).bind fun _ => (Agrees.of _).bind fun _ => ?_
  exact (Agrees.of _).bind fun _ => (Agrees.of _).bind fun _ => .pure _

theorem ModuleRows.presumes_ofModule {m : Module} {t : TypeDef} {d : MethodDef} {b : MethodBody} (type : t ∈ m.types)
    (member : d ∈ t.methods) (body : d.body? = some b)
    (small : Code.check b.code = .ok () → codeSize (promote b.code) < 2 ^ 32) :
    Presumes (strictOfModule m) (Code.check b.code = .ok () → Reaches (promote b.code)) :=
  .bind_right fun _ => .bind_right fun _ => .bind_right fun _ =>
    (ModuleWriter.presumes_allTypeRows small m 1 1 1 type member body).bind_left

end CilWeaver
