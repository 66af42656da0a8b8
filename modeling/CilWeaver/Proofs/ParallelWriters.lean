import CilWeaver.Image.ModuleStreams
import CilWeaver.Proofs.Lockstep

/-!
Two modules that differ in their bodies are written side by side. Only the code and the literals of the two drafts may
differ, and the rows only in the addresses and the layout of bodies.
-/

namespace CilWeaver

/-- What the bodies of a module leave in a draft. -/
structure BodyPart where
  userStrings : UserStringHeapBuilder := {}
  il : Bytes := zeros ModuleImage.reservedCode

namespace ModuleDraft

def part (d : ModuleDraft) : BodyPart := ⟨d.userStrings, d.il⟩

def withPart (b : BodyPart) (d : ModuleDraft) : ModuleDraft := { d with userStrings := b.userStrings, il := b.il }

end ModuleDraft

namespace ModuleWriter

open Step

/-- The stored form of a body with the given instructions. -/
def rawOf (b : MethodBody) (encoded : EncodedBody) : RawBody :=
  { code := encoded.bytes, maxStack := b.maxStack, initLocals := b.initLocals, localSignature := b.localSignature,
    clauses := b.regions.map (Region.toClause encoded.offsets.toArray) }

/-- The part of a writer of bodies behind the checks and the instructions. -/
def store (context : String) (b : MethodBody) (encoded : EncodedBody) : ModuleWriter (List Nat) := do
  let d ← get
  match (rawOf b encoded).encode d.il.length with
  | .ok bytes =>
    set { d with il := d.il ++ bytes }
    return encoded.offsets
  | .error defect => throw (.emission context (.clauses defect))

theorem addBody_eq (m : Module) (context : String) (b : MethodBody) : addBody m context b = (do
    check context (b.checkIndices m.documents.length)
    check context (bodyTokenCheck m b)
    let encoded ← Code.encode addLiteral context b.code
    store context b encoded) := rfl

theorem store_apply (context : String) (b : MethodBody) (e : EncodedBody) (d : ModuleDraft) : store context b e d =
    match (rawOf b e).encode d.il.length with
    | .ok bytes => .ok e.offsets { d with il := d.il ++ bytes }
    | .error defect => .error (.emission context (.clauses defect)) d := by
  unfold store
  rw [bind_of_ok (show (get : ModuleWriter ModuleDraft) d = .ok d d from rfl)]
  cases (rawOf b e).encode d.il.length with
  | ok bytes => rfl
  | error defect => rfl

end ModuleWriter

/-- A writer to which literals and code are nothing. -/
def IgnoresBodies {α : Type} (w : ModuleWriter α) : Prop := ∀ b, Blind (ModuleDraft.withPart b) w

namespace IgnoresBodies

open ModuleWriter

variable {α β : Type}

theorem pure (a : α) : IgnoresBodies (Pure.pure a) := fun _ => .pure a

theorem bind {x : ModuleWriter α} {f : α → ModuleWriter β} (first : IgnoresBodies x) (second : ∀ a, IgnoresBodies (f a)) :
    IgnoresBodies (x >>= f) := fun b => (first b).bind fun a => second a b

theorem mapM {f : α → ModuleWriter β} {items : List α} (each : ∀ a, IgnoresBodies (f a)) : IgnoresBodies (items.mapM f) :=
  fun b => .mapM fun a => each a b

theorem onPart {τ : Type} {part : ModuleDraft → τ} {replace : τ → ModuleDraft → ModuleDraft} {action : EStateM Error τ α}
    (reads : ∀ b d, part (ModuleDraft.withPart b d) = part d)
    (writes : ∀ b t d, replace t (ModuleDraft.withPart b d) = ModuleDraft.withPart b (replace t d)) :
    IgnoresBodies (ModuleWriter.onPart part replace action) := by
  intro b d
  unfold ModuleWriter.onPart
  rw [reads]
  cases action (part d) with
  | ok a t => exact congrArg _ (writes b t d)
  | error e t => exact congrArg _ (writes b t d)

theorem addString (text : String) : IgnoresBodies (addString text) := onPart (fun _ _ => rfl) fun _ _ _ => rfl

theorem addGuid (guid : Guid) : IgnoresBodies (addGuid guid) := onPart (fun _ _ => rfl) fun _ _ _ => rfl

theorem addBlob (blob : Bytes) : IgnoresBodies (addBlob blob) := onPart (fun _ _ => rfl) fun _ _ _ => rfl

theorem check (context : String) (result : Except EmissionFault Unit) : IgnoresBodies (check context result) := by
  unfold ModuleWriter.check
  cases result with
  | ok => exact pure ()
  | error fault => exact fun _ => .throw _

theorem coded (kind : CodedKind) (context : String) (token : Token) : IgnoresBodies (coded kind context token) := by
  unfold ModuleWriter.coded
  cases CodedIndex.ofToken kind token with
  | ok index => exact pure index
  | error e => exact fun _ => .throw _

theorem moduleRow (m : Module) : IgnoresBodies (moduleRow m) :=
  (addString _).bind fun _ => (addGuid _).bind fun _ => pure _

theorem typeRefRow (m : Module) (r : TypeRef) (position : Nat) : IgnoresBodies (typeRefRow m r position) :=
  (check _ _).bind fun _ => (coded _ _ _).bind fun _ => (addString _).bind fun _ => (addString _).bind fun _ => pure _

theorem fieldRow (f : FieldDef) : IgnoresBodies (fieldRow f) := (addString _).bind fun _ => (addBlob _).bind fun _ => pure _

theorem paramRow (p : ParamDef) : IgnoresBodies (paramRow p) := (addString _).bind fun _ => pure _

theorem baseType (m : Module) (t : TypeDef) : IgnoresBodies (baseType m t) := by
  unfold ModuleWriter.baseType
  by_cases null : t.baseType.isNull = true
  · rw [if_pos null]
    exact pure _
  · rw [if_neg null]
    exact (check _ _).bind fun _ => coded _ _ _

theorem memberRefRow (m : Module) (r : MemberRef) (position : Nat) : IgnoresBodies (memberRefRow m r position) :=
  (check _ _).bind fun _ => (coded _ _ _).bind fun _ => (addString _).bind fun _ => (addBlob _).bind fun _ => pure _

theorem signatureRow (signature : Bytes) : IgnoresBodies (signatureRow signature) := (addBlob _).bind fun _ => pure _

theorem assemblyRow (a : AssemblyIdentity) : IgnoresBodies (assemblyRow a) :=
  (addBlob _).bind fun _ => (addString _).bind fun _ => (addString _).bind fun _ => pure _

theorem assemblyRefRow (a : AssemblyRef) : IgnoresBodies (assemblyRefRow a) :=
  (addBlob _).bind fun _ => (addString _).bind fun _ => (addString _).bind fun _ => (addBlob _).bind fun _ => pure _

end IgnoresBodies

/-- How far two runs have come: the methods that are still to be written, and those that are, with the addresses in the
    first run. -/
structure BodyProgress where
  pending : List MethodDef
  done : List (MethodDef × UInt32)

/-- Drafts that go together if their parts for bodies do, and that are the same otherwise. -/
def Pairing.ofParts (related : BodyProgress → BodyPart → BodyPart → Prop) (faithful : Prop) (stops : Error → ModuleDraft → Prop)
    (never : faithful → ∀ e s, ¬ stops e s) : Pairing BodyProgress ModuleDraft where
  Related g d d' := d' = d.withPart d'.part ∧ related g d.part d'.part
  Faithful := faithful
  Stops := stops
  never := never

theorem ModuleDraft.part_eq_of_run {α : Type} {w : ModuleWriter α} (ignores : IgnoresBodies w) {d s : ModuleDraft} {a : α}
    (run : w d = .ok a s) : s.part = d.part := by
  have again := (ignores d.part).answers run
  change w d = _ at again
  rw [run] at again
  injection again with _ same
  rw [same]
  rfl

variable {related : BodyProgress → BodyPart → BodyPart → Prop} {faithful : Prop} {stops : Error → ModuleDraft → Prop}
  {never : faithful → ∀ e s, ¬ stops e s}

theorem IgnoresBodies.same {α : Type} {w : ModuleWriter α} (ignores : IgnoresBodies w) :
    (Pairing.ofParts related faithful stops never).Same w := by
  refine fun g => ⟨fun {d d' a s} alike run => ?_, fun _ {d d' e s} alike run => ?_⟩
  · obtain ⟨shape, parts⟩ := alike
    have run' := (ignores d'.part).answers run
    rw [← shape] at run'
    have part := ModuleDraft.part_eq_of_run ignores run
    exact .inr ⟨a, _, g, run', ⟨rfl, rfl⟩, rfl, part ▸ parts⟩
  · have run' := (ignores d'.part).failures run
    rw [← alike.1] at run'
    exact ⟨_, run'⟩

/-- The module with other bodies. -/
def MethodDef.withBody (f : MethodDef → Option MethodBody) (d : MethodDef) : MethodDef := { d with body? := f d }

def TypeDef.mapBodies (f : MethodDef → Option MethodBody) (t : TypeDef) : TypeDef :=
  { t with methods := t.methods.map (MethodDef.withBody f) }

def Module.mapBodies (f : MethodDef → Option MethodBody) (m : Module) : Module :=
  { m with types := m.types.map (TypeDef.mapBodies f) }

/-- Rows that may differ in the address and in the layout of the body. -/
def MethodRows.Alike (answers : UInt32 × Option (List Nat) → UInt32 × Option (List Nat) → Prop) (r r' : MethodRows) : Prop :=
  r' = { r with row := { r.row with address := r'.row.address }, offsets? := r'.offsets? } ∧
    answers (r.row.address, r.offsets?) (r'.row.address, r'.offsets?)

structure TypeRows.Alike (answers : UInt32 × Option (List Nat) → UInt32 × Option (List Nat) → Prop) (r r' : TypeRows) : Prop where
  row : r'.row = r.row
  fields : r'.fields = r.fields
  methods : List.Forall₂ (MethodRows.Alike answers) r.methods r'.methods

/-- Rows of modules that differ in their bodies. -/
structure ModuleRows.Alike (answers : UInt32 × Option (List Nat) → UInt32 × Option (List Nat) → Prop) (r r' : ModuleRows) : Prop where
  others : r' = { r with types := r'.types }
  types : List.Forall₂ (TypeRows.Alike answers) r.types r'.types

namespace Module

variable (m : Module) (f : MethodDef → Option MethodBody)

theorem rows_mapBodies (t : Table) : (m.mapBodies f).rows t = m.rows t := by
  have types : (m.mapBodies f).types = m.types.map (TypeDef.mapBodies f) := rfl
  have methods : ((m.mapBodies f).types.map (·.methods.length)).sum = (m.types.map (·.methods.length)).sum := by
    rw [types, List.map_map]
    simp only [Function.comp_def, TypeDef.mapBodies, List.length_map]
  cases t with
  | typeDef =>
    unfold Module.rows
    rw [types, List.length_map]
  | field =>
    unfold Module.rows
    rw [types, List.map_map]
    rfl
  | methodDef => exact methods
  | methodDebugInformation =>
    unfold Module.rows
    rw [methods]
    rfl
  | param =>
    unfold Module.rows Module.methodList
    simp only [types, List.flatMap_map, List.map_flatMap, TypeDef.mapBodies, List.map_map, Function.comp_def,
      MethodDef.withBody]
  | _ => rfl

theorem rowCounts_mapBodies : (m.mapBodies f).rowCounts = m.rowCounts := by
  unfold Module.rowCounts
  simp only [rows_mapBodies]

theorem contains_mapBodies (token : Token) : (m.mapBodies f).contains token = m.contains token := by
  unfold Module.contains
  cases token.table? with
  | none => rfl
  | some t => simp only [rows_mapBodies]

end Module

namespace ModuleWriter

variable (m : Module) (f : MethodDef → Option MethodBody)

theorem tokenCheck_mapBodies : tokenCheck (m.mapBodies f) = tokenCheck m := by
  funext place token
  unfold tokenCheck
  rw [Module.contains_mapBodies]

theorem typeRefRow_mapBodies : typeRefRow (m.mapBodies f) = typeRefRow m := by
  funext r position
  unfold typeRefRow
  rw [tokenCheck_mapBodies]

theorem memberRefRow_mapBodies : memberRefRow (m.mapBodies f) = memberRefRow m := by
  funext r position
  unfold memberRefRow
  rw [tokenCheck_mapBodies]

theorem baseType_mapBodies (t : TypeDef) : baseType (m.mapBodies f) (t.mapBodies f) = baseType m t := by
  unfold baseType
  rw [tokenCheck_mapBodies]
  rfl

theorem entryPointCheck_mapBodies : entryPointCheck (m.mapBodies f) = entryPointCheck m := by
  unfold entryPointCheck
  rw [Module.contains_mapBodies]
  rfl

theorem addMethodBody_mapBodies : addMethodBody (m.mapBodies f) = addMethodBody m := by
  have tokens (b : MethodBody) : bodyTokenCheck (m.mapBodies f) b = bodyTokenCheck m b := by
    unfold bodyTokenCheck
    rw [tokenCheck_mapBodies]
  have bodies (context : String) (b : MethodBody) : addBody (m.mapBodies f) context b = addBody m context b := by
    unfold addBody
    rw [tokens]
    rfl
  funext context body?
  cases body? with
  | none => rfl
  | some b => simp only [addMethodBody, bodies]

end ModuleWriter

open ModuleWriter in
/-- A module with other bodies is written as it is but for its types. -/
theorem ModuleRows.ofModule_mapBodies (m : Module) (f : MethodDef → Option MethodBody) : ofModule (m.mapBodies f) = (do
    check m.name (entryPointCheck m)
    let module ← moduleRow m
    let typeRefs ← m.typeRefs.zipIdx.mapM fun (r, position) => typeRefRow m r position
    let types ← allTypeRows (m.mapBodies f) 1 1 1 (m.types.map (TypeDef.mapBodies f))
    let memberRefs ← m.memberRefs.zipIdx.mapM fun (r, position) => memberRefRow m r position
    let signatures ← m.localSignatures.mapM signatureRow
    let assembly ← m.assembly?.toList.mapM assemblyRow
    let assemblyRefs ← m.assemblyRefs.mapM assemblyRefRow
    return { module, typeRefs, types, memberRefs, signatures, assembly, assemblyRefs }) := by
  unfold ofModule
  rw [entryPointCheck_mapBodies, typeRefRow_mapBodies, memberRefRow_mapBodies]
  rfl

section

variable (m : Module) {f f' : MethodDef → Option MethodBody}
  {answers : UInt32 × Option (List Nat) → UInt32 × Option (List Nat) → Prop}

/-- The bodies of one method are written side by side. -/
def BodiesMatch (p : Pairing BodyProgress ModuleDraft) (m : Module) (f f' : MethodDef → Option MethodBody)
    (answers : UInt32 × Option (List Nat) → UInt32 × Option (List Nat) → Prop) : Prop :=
  ∀ context d pending done, Lockstep p ⟨d :: pending, done⟩ (ModuleWriter.addMethodBody m context (f d))
    (ModuleWriter.addMethodBody m context (f' d)) fun a a' g => answers a a' ∧ g = ⟨pending, done ++ [(d, a.1)]⟩

variable {m} (bodies : BodiesMatch (.ofParts related faithful stops never) m f f' answers)

include bodies

namespace ModuleWriter

/-- The addresses that rows of methods have. -/
def addresses (rows : List MethodRows) : List UInt32 := rows.map (·.row.address)

theorem methodRows_alike (t : TypeDef) (firstParam : Nat) (d : MethodDef) (pending : List MethodDef)
    (done : List (MethodDef × UInt32)) :
    Lockstep (.ofParts related faithful stops never) ⟨d :: pending, done⟩
      (methodRows (m.mapBodies f) (t.mapBodies f) firstParam (d.withBody f))
      (methodRows (m.mapBodies f') (t.mapBodies f') firstParam (d.withBody f'))
      fun r r' g => r.Alike answers r' ∧ g = ⟨pending, done ++ [(d, r.row.address)]⟩ := by
  unfold methodRows
  rw [addMethodBody_mapBodies, addMethodBody_mapBodies]
  refine (bodies _ d pending done).bind fun a a' g holds => ?_
  obtain ⟨answered, rfl⟩ := holds
  refine .bind_same (IgnoresBodies.addString _).same fun _ => .bind_same (IgnoresBodies.addBlob _).same fun _ => ?_
  exact .bind_same (IgnoresBodies.mapM IgnoresBodies.paramRow).same fun _ => .pure ⟨⟨rfl, answered⟩, rfl⟩

theorem allMethodRows_alike (t : TypeDef) (firstParam : Nat) (ds pending : List MethodDef)
    (done : List (MethodDef × UInt32)) :
    Lockstep (.ofParts related faithful stops never) ⟨ds ++ pending, done⟩
      (allMethodRows (m.mapBodies f) (t.mapBodies f) firstParam (ds.map (MethodDef.withBody f)))
      (allMethodRows (m.mapBodies f') (t.mapBodies f') firstParam (ds.map (MethodDef.withBody f')))
      fun rs rs' g => List.Forall₂ (MethodRows.Alike answers) rs rs' ∧ rs.length = ds.length ∧
        g = ⟨pending, done ++ ds.zip (addresses rs)⟩ := by
  induction ds generalizing firstParam done with
  | nil => exact .pure ⟨.nil, rfl, by rw [List.zip_nil_left, List.append_nil]; rfl⟩
  | cons d ds ih =>
    refine (methodRows_alike bodies t firstParam d _ done).bind fun r r' g holds => ?_
    obtain ⟨alike, rfl⟩ := holds
    refine (ih _ _).bind fun rs rs' g holds => ?_
    obtain ⟨others, count, rfl⟩ := holds
    refine .pure ⟨.cons alike others, congrArg Nat.succ count, ?_⟩
    rw [List.append_assoc]
    rfl

theorem typeRows_alike (firstField firstMethod firstParam : Nat) (t : TypeDef) (pending : List MethodDef)
    (done : List (MethodDef × UInt32)) :
    Lockstep (.ofParts related faithful stops never) ⟨t.methods ++ pending, done⟩
      (typeRows (m.mapBodies f) firstField firstMethod firstParam (t.mapBodies f))
      (typeRows (m.mapBodies f') firstField firstMethod firstParam (t.mapBodies f'))
      fun r r' g => r.Alike answers r' ∧ r.methods.length = t.methods.length ∧
        g = ⟨pending, done ++ t.methods.zip (addresses r.methods)⟩ := by
  unfold typeRows
  rw [baseType_mapBodies, baseType_mapBodies]
  refine .bind_same (IgnoresBodies.baseType m t).same fun _ => .bind_same (IgnoresBodies.addString _).same fun _ => ?_
  refine .bind_same (IgnoresBodies.addString _).same fun _ => .bind_same (IgnoresBodies.mapM IgnoresBodies.fieldRow).same fun _ => ?_
  refine (allMethodRows_alike bodies t firstParam t.methods pending done).bind fun rs rs' g holds => ?_
  obtain ⟨alike, count, rfl⟩ := holds
  exact .pure ⟨⟨rfl, rfl, alike⟩, count, rfl⟩

theorem allTypeRows_alike (firstField firstMethod firstParam : Nat) (ts : List TypeDef) (pending : List MethodDef)
    (done : List (MethodDef × UInt32)) :
    Lockstep (.ofParts related faithful stops never) ⟨ts.flatMap (·.methods) ++ pending, done⟩
      (allTypeRows (m.mapBodies f) firstField firstMethod firstParam (ts.map (TypeDef.mapBodies f)))
      (allTypeRows (m.mapBodies f') firstField firstMethod firstParam (ts.map (TypeDef.mapBodies f')))
      fun rs rs' g => List.Forall₂ (TypeRows.Alike answers) rs rs' ∧
        g = ⟨pending, done ++ (ts.flatMap (·.methods)).zip (addresses (rs.flatMap (·.methods)))⟩ := by
  induction ts generalizing firstField firstMethod firstParam done with
  | nil => exact .pure ⟨.nil, by rw [List.flatMap_nil, List.zip_nil_left, List.append_nil, List.nil_append]⟩
  | cons t ts ih =>
    rw [List.flatMap_cons, List.append_assoc, List.map_cons, List.map_cons, allTypeRows, allTypeRows]
    refine (typeRows_alike bodies _ _ _ t _ done).bind fun r r' g holds => ?_
    obtain ⟨alike, count, rfl⟩ := holds
    have methods : ((t.mapBodies f).methods.map (·.params.length)).sum = ((t.mapBodies f').methods.map (·.params.length)).sum := by
      unfold TypeDef.mapBodies
      rw [List.map_map, List.map_map]
      rfl
    have lengths : (t.mapBodies f).methods.length = (t.mapBodies f').methods.length := by
      unfold TypeDef.mapBodies
      rw [List.length_map, List.length_map]
    dsimp only
    rw [methods, lengths]
    refine (ih _ _ _ _).bind fun rs rs' g holds => ?_
    obtain ⟨others, rfl⟩ := holds
    refine .pure ⟨.cons alike others, ?_⟩
    rw [List.append_assoc, List.flatMap_cons]
    unfold addresses
    rw [List.map_append, List.zip_append (by rw [List.length_map, count])]

end ModuleWriter

open ModuleWriter in
/-- Two modules that differ in their bodies are written side by side. -/
theorem ModuleRows.ofModule_alike : Lockstep (.ofParts related faithful stops never) ⟨m.types.flatMap (·.methods), []⟩
    (ofModule (m.mapBodies f)) (ofModule (m.mapBodies f')) fun rows rows' g =>
      rows.Alike answers rows' ∧ g = ⟨[], (m.types.flatMap (·.methods)).zip (addresses rows.methods)⟩ := by
  have typeRefRows : IgnoresBodies (m.typeRefs.zipIdx.mapM fun (r, position) => typeRefRow m r position) :=
    .mapM fun (r, position) => .typeRefRow m r position
  have memberRefRows : IgnoresBodies (m.memberRefs.zipIdx.mapM fun (r, position) => memberRefRow m r position) :=
    .mapM fun (r, position) => .memberRefRow m r position
  rw [ofModule_mapBodies, ofModule_mapBodies]
  apply Lockstep.bind_same (IgnoresBodies.check _ _).same
  intro _
  apply Lockstep.bind_same (IgnoresBodies.moduleRow m).same
  intro module
  apply Lockstep.bind_same typeRefRows.same
  intro typeRefs
  have types := allTypeRows_alike bodies 1 1 1 m.types [] []
  rw [List.append_nil] at types
  apply types.bind
  rintro rs rs' _ ⟨alike, rfl⟩
  apply Lockstep.bind_same memberRefRows.same
  intro memberRefs
  apply Lockstep.bind_same (IgnoresBodies.mapM IgnoresBodies.signatureRow).same
  intro signatures
  apply Lockstep.bind_same (IgnoresBodies.mapM IgnoresBodies.assemblyRow).same
  intro assembly
  apply Lockstep.bind_same (IgnoresBodies.mapM IgnoresBodies.assemblyRefRow).same
  intro assemblyRefs
  exact .pure ⟨⟨rfl, alike⟩, rfl⟩

end

end CilWeaver
