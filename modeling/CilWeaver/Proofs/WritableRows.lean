import CilWeaver.Proofs.Contents
import CilWeaver.Proofs.Rows

/-!
Modules whose rows can all be written: their references can be stored, their bodies pass the checks, and there is room
for their names, blobs and code. For any other module, what the writer refuses, or which heap overflows.
-/

namespace CilWeaver

open ModuleDraft

/-- The starts of the members of several owners, one behind the other, fit columns for their rows. The start of an
    owner without members may be the row behind the last one, which needs a byte more than the last one at worst. -/
def StartsFit (lengths : List Nat) : Prop :=
  ∀ start ∈ startsFrom 1 lengths, start < 2 ^ 32 ∧ (lengths.sum ≤ 0xFFFF → start < 2 ^ 16)

/-- What is asked of a module before its rows are written. -/
structure Module.Writable (m : Module) : Prop where
  entryPoint : ModuleWriter.entryPointCheck m = .ok ()
  scopes : ∀ r ∈ m.typeRefs, ∃ index, HasReference m .resolutionScope r.scope index
  parents : ∀ r ∈ m.memberRefs, ∃ index, HasReference m .memberRefParent r.parent index
  baseTypes : ∀ t ∈ m.types, ¬ t.baseType.isNull → ∃ index, HasReference m .typeDefOrRef t.baseType index
  bodies : ∀ t ∈ m.types, ∀ d ∈ t.methods, ∀ b, d.body? = some b → b.Writable m
  fieldStarts : StartsFit (m.types.map (·.fields.length))
  methodStarts : StartsFit (m.types.map (·.methods.length))
  paramStarts : StartsFit ((m.types.flatMap (·.methods)).map (·.params.length))
  items : HeapItem.Fit m.items
  code : m.codeSpace ≤ 2 ^ 32

/-- Why a token is not stored in a column of a module, with the fault that tells of it. -/
inductive Module.RefusedToken (m : Module) (place : TokenPlace) (kind : CodedKind) (token : Token) : EmissionFault → Prop
  | dangling : ¬ m.contains token = true → RefusedToken m place kind token (.danglingToken place token)
  | unencodable : (∀ index, CodedIndex.ofToken kind token ≠ .ok index) →
      RefusedToken m place kind token (.unencodableToken token kind)

theorem ModuleDraft.HasReference.not_refused {m : Module} {place : TokenPlace} {kind : CodedKind} {token : Token}
    {index : CodedIndex} (stored : HasReference m kind token index) (fault : EmissionFault) :
    ¬ m.RefusedToken place kind token fault := by
  intro refused
  cases refused with
  | dangling missing => exact missing stored.contained
  | unencodable none => exact none index stored.coded

/-- Why the writer refuses an element of a module: the text that names the element, and the fault found there. -/
inductive Module.Refused (m : Module) : (context : String) → EmissionFault → Prop
  | entryPoint : ¬ m.entryPoint.isNull = true → ¬ (m.entryPoint.isIn .methodDef = true ∧ m.contains m.entryPoint = true) →
      Refused m m.name (.entryPoint m.entryPoint)
  | scope {r : TypeRef} {position : Nat} {fault : EmissionFault} : m.typeRefs[position]? = some r →
      m.RefusedToken .scope .resolutionScope r.scope fault → Refused m ("TypeRef " ++ Text.decimal (position + 1)) fault
  | baseType {t : TypeDef} {fault : EmissionFault} : t ∈ m.types → ¬ t.baseType.isNull = true →
      m.RefusedToken .baseType .typeDefOrRef t.baseType fault → Refused m t.fullName fault
  | body {t : TypeDef} {d : MethodDef} {b : MethodBody} {fault : EmissionFault} : t ∈ m.types → d ∈ t.methods →
      d.body? = some b → b.Refused m fault → Refused m (t.methodText d.name) fault
  | parent {r : MemberRef} {position : Nat} {fault : EmissionFault} : m.memberRefs[position]? = some r →
      m.RefusedToken .parent .memberRefParent r.parent fault → Refused m ("MemberRef " ++ Text.decimal (position + 1)) fault

theorem codeSize_lt_of_space {m : Module} (space : m.codeSpace ≤ 2 ^ 32) {t : TypeDef} (inside : t ∈ m.types)
    {d : MethodDef} (member : d ∈ t.methods) {b : MethodBody} (own : d.body? = some b) :
    Code.codeSize (Code.promote b.code) < 2 ^ 32 := by
  have types : t.space ≤ (m.types.map TypeDef.space).sum := List.single_le_sum (fun _ _ => Nat.zero_le _) _
    (List.mem_map_of_mem inside)
  have methods : d.space ≤ t.space := List.single_le_sum (fun _ _ => Nat.zero_le _) _ (List.mem_map_of_mem member)
  have body : d.space = b.space := by
    rw [MethodDef.space, own]
    rfl
  unfold Module.codeSpace at space
  unfold MethodBody.space MethodBody.storedSpace at body
  omega

theorem Module.Writable.not_refused {m : Module} (writable : m.Writable) (context : String) (fault : EmissionFault) :
    ¬ m.Refused context fault := by
  intro refused
  cases refused with
  | entryPoint named missing =>
    have passed := writable.entryPoint
    unfold ModuleWriter.entryPointCheck at passed
    rw [← Bool.and_eq_true] at missing
    rw [if_neg (by rw [Bool.or_eq_true]; exact fun either => either.elim named missing)] at passed
    cases passed
  | scope found refused =>
    obtain ⟨index, stored⟩ := writable.scopes _ (List.mem_of_getElem? found)
    exact stored.not_refused _ refused
  | baseType inside named refused =>
    obtain ⟨index, stored⟩ := writable.baseTypes _ inside named
    exact stored.not_refused _ refused
  | body inside member own refused =>
    exact (writable.bodies _ inside _ member _ own).not_refused writable.code
      (codeSize_lt_of_space writable.code inside member own) _ refused
  | parent found refused =>
    obtain ⟨index, stored⟩ := writable.parents _ (List.mem_of_getElem? found)
    exact stored.not_refused _ refused

theorem subset_of_flatMap {α β : Type} {f : α → List β} {as : List α} {bs : List β} (given : as.flatMap f ⊆ bs) {a : α}
    (member : a ∈ as) : f a ⊆ bs :=
  fun _ inside => given (List.mem_flatMap.mpr ⟨a, member, inside⟩)

namespace ModuleWriter

variable {items : List HeapItem} {limit : Nat} {m : Module} {reason : Error → Prop}

section

variable (overflows : ∀ {defect}, HeapItem.Overflow items defect → reason (.malformed defect))
include overflows

theorem attempts_moduleRow (given : [.text m.name, .guid m.mvid] ⊆ items) :
    Attempts (Room items limit) reason 0 (moduleRow m) := by
  simp only [List.cons_subset, List.nil_subset, and_true] at given
  unfold moduleRow
  exact (attempts_addString overflows given.1).bind fun name => (attempts_addGuid given.2).map _

omit overflows in
theorem attempts_reference {α : Type} {room : Nat → ModuleDraft → Prop} {kind : CodedKind} {context : String}
    {place : TokenPlace} {token : Token} {rest : CodedIndex → ModuleWriter α}
    (refuses : ∀ {fault}, m.RefusedToken place kind token fault → reason (.emission context fault))
    (others : ∀ index, Attempts room reason 0 (rest index)) :
    Attempts room reason 0 (do
      check context (tokenCheck m place token)
      let index ← coded kind context token
      rest index) := by
  refine (attempts_check fun fault failed => ?_).bind fun _ => (attempts_coded fun e failed => ?_).bind others
  · unfold tokenCheck at failed
    split at failed
    · cases failed
    · rename_i missing
      cases failed
      exact refuses (.dangling missing)
  · refine refuses (.unencodable fun index coded => ?_)
    rw [failed] at coded
    cases coded

theorem attempts_typeRefRow {r : TypeRef} (given : r.items ⊆ items) {position : Nat}
    (refuses : ∀ {fault}, m.RefusedToken .scope .resolutionScope r.scope fault →
      reason (.emission ("TypeRef " ++ Text.decimal (position + 1)) fault)) :
    Attempts (Room items limit) reason 0 (typeRefRow m r position) := by
  unfold TypeRef.items at given
  simp only [List.cons_subset, List.nil_subset, and_true] at given
  unfold typeRefRow
  apply attempts_reference refuses
  intro index
  exact (attempts_addString overflows given.1).bind fun name => (attempts_addString overflows given.2).map _

theorem attempts_memberRefRow {r : MemberRef} (given : r.items ⊆ items) {position : Nat}
    (refuses : ∀ {fault}, m.RefusedToken .parent .memberRefParent r.parent fault →
      reason (.emission ("MemberRef " ++ Text.decimal (position + 1)) fault)) :
    Attempts (Room items limit) reason 0 (memberRefRow m r position) := by
  unfold MemberRef.items at given
  simp only [List.cons_subset, List.nil_subset, and_true] at given
  unfold memberRefRow
  apply attempts_reference refuses
  intro index
  exact (attempts_addString overflows given.1).bind fun name => (attempts_addBlob overflows given.2).map _

theorem attempts_fieldRow {f : FieldDef} (given : f.items ⊆ items) :
    Attempts (Room items limit) reason 0 (fieldRow f) := by
  unfold FieldDef.items at given
  simp only [List.cons_subset, List.nil_subset, and_true] at given
  unfold fieldRow
  exact (attempts_addString overflows given.1).bind fun name => (attempts_addBlob overflows given.2).map _

theorem attempts_paramRow {p : ParamDef} (given : p.items ⊆ items) :
    Attempts (Room items limit) reason 0 (paramRow p) := by
  unfold paramRow
  exact (attempts_addString overflows (given List.mem_cons_self)).map _

theorem attempts_methodRows (owner : TypeDef) (firstParam : Nat) {d : MethodDef}
    (refuses : ∀ b, d.body? = some b → ∀ {fault}, b.Refused m fault → reason (.emission (owner.methodText d.name) fault))
    (given : d.items ⊆ items) :
    Attempts (Room items m.codeSpace) reason d.space (methodRows m owner firstParam d) := by
  unfold MethodDef.items at given
  simp only [List.append_subset, List.cons_subset, List.nil_subset, and_true] at given
  obtain ⟨⟨body, name, signature⟩, params⟩ := given
  unfold methodRows
  exact (attempts_addMethodBody overflows refuses body).bind fun found =>
    (attempts_addString overflows name).bind fun name => (attempts_addBlob overflows signature).bind fun signature =>
      (Attempts.mapM_free fun p member => attempts_paramRow overflows (subset_of_flatMap params member)).map _

theorem attempts_allMethodRows (owner : TypeDef) (firstParam : Nat) {methods : List MethodDef}
    (refuses : ∀ d ∈ methods, ∀ b, d.body? = some b → ∀ {fault}, b.Refused m fault →
      reason (.emission (owner.methodText d.name) fault))
    (given : methods.flatMap MethodDef.items ⊆ items) :
    Attempts (Room items m.codeSpace) reason (methods.map MethodDef.space).sum
      (allMethodRows m owner firstParam methods) := by
  induction methods generalizing firstParam with
  | nil => exact .pure []
  | cons d methods ih =>
    rw [List.flatMap_cons, List.append_subset] at given
    rw [allMethodRows, List.map_cons, List.sum_cons]
    have first := attempts_methodRows overflows owner firstParam (refuses d List.mem_cons_self) given.1
    have others := fun start => ih start (fun d member => refuses d (List.mem_cons_of_mem _ member)) given.2
    exact first.bind fun rows => (others _).map _

omit overflows in
theorem attempts_baseType {room : Nat → ModuleDraft → Prop} {t : TypeDef}
    (refuses : ¬ t.baseType.isNull = true → ∀ {fault}, m.RefusedToken .baseType .typeDefOrRef t.baseType fault →
      reason (.emission t.fullName fault)) : Attempts room reason 0 (baseType m t) := by
  unfold baseType
  by_cases isNull : t.baseType.isNull = true
  · rw [if_pos isNull]
    exact .pure _
  · rw [if_neg isNull]
    have both : Attempts room reason 0 _ := attempts_reference (refuses isNull) fun index => .pure index
    rwa [bind_pure] at both

theorem attempts_typeRows (firstField firstMethod firstParam : Nat) {t : TypeDef} (member : t ∈ m.types)
    (refuses : ∀ {context fault}, m.Refused context fault → reason (.emission context fault)) (given : t.items ⊆ items) :
    Attempts (Room items m.codeSpace) reason t.space (typeRows m firstField firstMethod firstParam t) := by
  unfold TypeDef.items at given
  simp only [List.append_subset, List.cons_subset, List.nil_subset, and_true] at given
  obtain ⟨⟨⟨name, namespaceName⟩, fields⟩, methods⟩ := given
  unfold typeRows
  apply (attempts_baseType fun named _ refused => refuses (.baseType member named refused)).free_bind
  intro baseType
  apply (attempts_addString overflows name).free_bind
  intro name
  apply (attempts_addString overflows namespaceName).free_bind
  intro namespaceName
  apply (Attempts.mapM_free fun f member => attempts_fieldRow overflows (subset_of_flatMap fields member)).free_bind
  intro fields
  exact (attempts_allMethodRows overflows t firstParam
    (fun d own b body _ refused => refuses (.body member own body refused)) methods).map _

theorem attempts_allTypeRows (firstField firstMethod firstParam : Nat) {types : List TypeDef} (own : types ⊆ m.types)
    (refuses : ∀ {context fault}, m.Refused context fault → reason (.emission context fault))
    (given : types.flatMap TypeDef.items ⊆ items) :
    Attempts (Room items m.codeSpace) reason (types.map TypeDef.space).sum
      (allTypeRows m firstField firstMethod firstParam types) := by
  induction types generalizing firstField firstMethod firstParam with
  | nil => exact .pure []
  | cons t types ih =>
    rw [List.flatMap_cons, List.append_subset] at given
    rw [allTypeRows, List.map_cons, List.sum_cons]
    rw [List.cons_subset] at own
    have first := attempts_typeRows overflows firstField firstMethod firstParam own.1 refuses given.1
    have others := fun field method param => ih field method param own.2 given.2
    exact first.bind fun rows => (others _ _ _).map _

theorem attempts_signatureRow {signature : Bytes} (member : .blob signature ∈ items) :
    Attempts (Room items limit) reason 0 (signatureRow signature) := by
  unfold signatureRow
  exact (attempts_addBlob overflows member).map _

theorem attempts_assemblyRow {a : AssemblyIdentity} (given : a.items ⊆ items) :
    Attempts (Room items limit) reason 0 (assemblyRow a) := by
  unfold AssemblyIdentity.items at given
  simp only [List.cons_subset, List.nil_subset, and_true] at given
  obtain ⟨publicKey, name, culture⟩ := given
  unfold assemblyRow
  exact (attempts_addBlob overflows publicKey).bind fun publicKey => (attempts_addString overflows name).bind fun name =>
    (attempts_addString overflows culture).map _

theorem attempts_assemblyRefRow {a : AssemblyRef} (given : a.items ⊆ items) :
    Attempts (Room items limit) reason 0 (assemblyRefRow a) := by
  unfold AssemblyRef.items at given
  simp only [List.cons_subset, List.nil_subset, and_true] at given
  obtain ⟨key, name, culture, hash⟩ := given
  unfold assemblyRefRow
  exact (attempts_addBlob overflows key).bind fun key => (attempts_addString overflows name).bind fun name =>
    (attempts_addString overflows culture).bind fun culture => (attempts_addBlob overflows hash).map _

end

theorem attempts_entryPointCheck {room : Nat → ModuleDraft → Prop}
    (refuses : ∀ {context fault}, m.Refused context fault → reason (.emission context fault)) :
    Attempts room reason 0 (check m.name (entryPointCheck m)) := by
  refine attempts_check fun fault failed => ?_
  unfold entryPointCheck at failed
  split at failed
  · cases failed
  · rename_i missing
    cases failed
    rw [Bool.or_eq_true, not_or, Bool.and_eq_true] at missing
    exact refuses (.entryPoint missing.1 missing.2)

end ModuleWriter

namespace ModuleRows

open ModuleWriter

theorem attempts_mapM_zipIdx {α β : Type} {room : Nat → ModuleDraft → Prop} {reason : Error → Prop}
    {f : α × Nat → ModuleWriter β} {items : List α}
    (each : ∀ a position, items[position]? = some a → Attempts room reason 0 (f (a, position))) :
    Attempts room reason 0 (items.zipIdx.mapM f) :=
  .mapM_free fun item member => each item.1 item.2 (List.mem_zipIdx_iff_getElem?.mp member)

/-- The rows of a module are written, and there is room for what they refer to, unless an element of the module is
    refused or one of its heaps overflows. -/
theorem attempt_ofModule {m : Module} {reason : Error → Prop}
    (refuses : ∀ {context fault}, m.Refused context fault → reason (.emission context fault))
    (overflows : ∀ {defect}, HeapItem.Overflow m.items defect → reason (.malformed defect)) :
    Attempt (Room m.items m.codeSpace 0) reason ((ofModule m).run {}) := by
  have parts : m.items ⊆ m.items := List.Subset.refl _
  conv at parts => lhs; unfold Module.items
  simp only [List.append_subset] at parts
  obtain ⟨⟨⟨⟨⟨⟨own, typeRefs⟩, types⟩, memberRefs⟩, signatures⟩, assembly⟩, assemblyRefs⟩ := parts
  have whole : Attempts (Room m.items m.codeSpace) reason (m.types.map TypeDef.space).sum (ofModule m) := by
    unfold ofModule
    apply (attempts_entryPointCheck refuses).free_bind
    intro _
    apply (attempts_moduleRow overflows own).free_bind
    intro module
    apply (attempts_mapM_zipIdx fun r position found => attempts_typeRefRow overflows
      (subset_of_flatMap typeRefs (List.mem_of_getElem? found)) fun refused => refuses (.scope found refused)).free_bind
    intro typeRefRows
    apply (attempts_allTypeRows overflows 1 1 1 (List.Subset.refl _) refuses types).bind_free
    intro typeRows
    apply (attempts_mapM_zipIdx fun r position found => attempts_memberRefRow overflows
      (subset_of_flatMap memberRefs (List.mem_of_getElem? found)) fun refused => refuses (.parent found refused)).free_bind
    intro memberRefRows
    apply (Attempts.mapM_free fun signature member =>
      attempts_signatureRow overflows (signatures (List.mem_map_of_mem member))).free_bind
    intro signatureRows
    apply (Attempts.mapM_free fun a member => attempts_assemblyRow overflows (subset_of_flatMap assembly member)).free_bind
    intro assemblyRows
    exact (Attempts.mapM_free fun a member =>
      attempts_assemblyRefRow overflows (subset_of_flatMap assemblyRefs member)).map _
  exact whole 0 {} (room_empty m m.items)

theorem room_of_ok {m : Module} {rows : ModuleRows} {d : ModuleDraft} (run : (ofModule m).run {} = .ok rows d) :
    Room m.items m.codeSpace 0 d := by
  have ends : Attempt (Room m.items m.codeSpace 0) (fun _ => True) _ :=
    attempt_ofModule (fun _ => trivial) fun _ => trivial
  rwa [run] at ends

end ModuleRows

end CilWeaver
