import CilWeaver.Proofs.RoundTrip
import CilWeaver.Proofs.Weaving

/-!
Writing a module that was read makes the same steps as writing the module it was read from.
-/

namespace CilWeaver

open Code Step

/-- Wherever one step ends well, the other ends with the same result. -/
def Follows {σ α : Type} (w w' : EStateM Error σ α) : Prop := ∀ s a s', w s = .ok a s' → w' s = .ok a s'

namespace Follows

variable {σ α β γ δ : Type}

theorem refl (w : EStateM Error σ α) : Follows w w := fun _ _ _ run => run

theorem bind {x x' : EStateM Error σ α} {f f' : α → EStateM Error σ β} (first : Follows x x')
    (second : ∀ a, Follows (f a) (f' a)) : Follows (x >>= f) (x' >>= f') := by
  intro s b s'' run
  obtain ⟨a, s', one, two⟩ := bind_eq_ok.mp run
  exact bind_eq_ok.mpr ⟨a, s', first _ _ _ one, second a _ _ _ two⟩

theorem mapM {f : α → EStateM Error σ γ} {g : β → EStateM Error σ γ} {as : List α} {bs : List β}
    (all : List.Forall₂ (fun a b => Follows (f a) (g b)) as bs) : Follows (as.mapM f) (bs.mapM g) := by
  induction all with
  | nil => exact refl _
  | cons first others ih =>
    rw [List.mapM_cons, List.mapM_cons]
    exact first.bind fun _ => ih.bind fun _ => refl _

theorem throw {e : Error} {w : EStateM Error σ α} : Follows (MonadExcept.throw e) w := by
  intro s a s' run
  exact absurd run throw_ne_ok

theorem check {context context' : String} {r r' : Except EmissionFault Unit} (passes : r = .ok () → r' = .ok ()) :
    Follows (ModuleWriter.check context r) (ModuleWriter.check context' r') := by
  unfold ModuleWriter.check
  cases r with
  | ok a =>
    rw [passes rfl]
    exact refl _
  | error fault => exact throw

end Follows

namespace Module

/-- Two modules have the same rows, except for documents. -/
def SameRows (m m' : Module) : Prop := ∀ t, t ≠ .document → m'.rows t = m.rows t

variable {m m' : Module}

theorem SameRows.contains (same : m.SameRows m') {token : Token} (other : token.table? ≠ some .document) :
    m'.contains token = m.contains token := by
  unfold Module.contains
  cases shape : token.table? with
  | none => rfl
  | some t =>
    have count := same t fun document => other (document ▸ shape)
    simp only [count]

/-- What is in the image of a module is in each module with the same rows. -/
theorem SameRows.contains_of_image (same : m.SameRows m') {token : Token} (contained : m.containsInImage token = true) :
    m'.contains token = true := by
  obtain ⟨inside, table⟩ := Bool.and_eq_true_iff.mp contained
  rw [same.contains, inside]
  intro document
  rw [document] at table
  exact absurd table (by decide)

theorem SameRows.rowCounts (same : m.SameRows m') : m'.rowCounts = m.rowCounts := by
  unfold Module.rowCounts
  congr 1
  refine List.map_congr_left fun t member => ?_
  rw [same t]
  rintro rfl
  exact absurd member (by decide)

end Module

namespace ModuleWriter

open CilWeaver.Module

variable {m m' : Module}

/-- A reference that is checked and coded. -/
theorem follows_reference {α : Type} (same : m.SameRows m') {kind : CodedKind} {context : String} {place : TokenPlace}
    {token : Token} {rest rest' : CodedIndex → ModuleWriter α} (others : ∀ index, Follows (rest index) (rest' index)) :
    Follows (do
      check context (tokenCheck m place token)
      let index ← coded kind context token
      rest index) (do
      check context (tokenCheck m' place token)
      let index ← coded kind context token
      rest' index) := by
  intro d a d' run
  obtain ⟨⟨⟩, d₁, checked, run⟩ := bind_eq_ok.mp run
  obtain ⟨index, d₂, code, run⟩ := bind_eq_ok.mp run
  have named : CodedIndex.ofToken kind token = .ok index := by
    unfold coded at code
    cases found : CodedIndex.ofToken kind token with
    | ok own =>
      simp only [found] at code
      rw [(pure_eq_ok.mp code).1]
    | error e =>
      simp only [found] at code
      exact absurd code throw_ne_ok
  obtain ⟨-, -, -, candidate⟩ := CodedIndex.ofToken_eq_ok named
  have other : token.table? ≠ some .document := by
    rw [table?_of_coded named]
    intro document
    have all : ∀ t ∈ kind.tables, t ≠ .document := by cases kind <;> decide
    exact all _ candidate (Option.some.inj document)
  refine bind_eq_ok.mpr ⟨(), d₁, ?_, bind_eq_ok.mpr ⟨index, d₂, code, others index _ _ _ run⟩⟩
  refine Follows.check (fun passed => ?_) d () d₁ checked
  rw [MethodBody.tokenCheck_eq_ok] at passed ⊢
  rw [same.contains other, passed]

theorem follows_typeRefRow (same : m.SameRows m') (r : TypeRef) (definition? : Option Symbol) (position : Nat) :
    Follows (typeRefRow m r position) (typeRefRow m' { r with definition? } position) := by
  unfold typeRefRow
  exact follows_reference same fun _ => .refl _

theorem follows_memberRefRow (same : m.SameRows m') (r : MemberRef) (definition? : Option Symbol) (position : Nat) :
    Follows (memberRefRow m r position) (memberRefRow m' { r with definition? } position) := by
  unfold memberRefRow
  exact follows_reference same fun _ => .refl _

theorem follows_baseType (same : m.SameRows m') (t : TypeDef) (methods : List MethodDef) :
    Follows (baseType m t) (baseType m' { t with methods }) := by
  unfold baseType
  by_cases null : t.baseType.isNull = true
  · simp only [null, ↓reduceIte]
    exact .refl _
  · simp only [null, Bool.false_eq_true, ↓reduceIte]
    have step := fun context => @follows_reference m m' _ same .typeDefOrRef context .baseType t.baseType pure pure
      fun _ => .refl _
    simp only [bind_pure] at step
    exact step _

end ModuleWriter

/-- Code whose branches are promoted is written as the same bytes. -/
theorem Code.encode_promote {σ : Type} {literal : String → EStateM Error σ Nat} {context : String}
    {code : List Instruction} {s s' : σ} {encoded : EncodedBody}
    (run : Code.encode literal context code s = .ok encoded s') :
    ∃ promoted, Code.encode literal context (promote code) s = .ok { encoded with promoted } s' := by
  unfold Code.encode at run ⊢
  cases checked : check code with
  | error fault =>
    simp only [checked] at run
    exact absurd run throw_ne_ok
  | ok result =>
    have again : check (promote code) = .ok () := valid_of_check.mpr (valid_of_check.mp checked).promote
    simp only [checked, again, promote_promote] at run ⊢
    obtain ⟨bytes, s₁, written, run⟩ := bind_eq_ok.mp run
    obtain ⟨rfl, rfl⟩ := pure_eq_ok.mp run
    exact ⟨_, bind_eq_ok.mpr ⟨bytes, _, written, rfl⟩⟩

namespace MethodBody

theorem checkPoints_canonical {count documents : Nat} (points : List SourcePoint) (previous? : Option Nat) :
    checkPoints count documents previous? (points.map PointAt.canonical) =
      checkPoints count documents previous? points := by
  induction points generalizing previous? with
  | nil => rfl
  | cons p points ih =>
    rw [List.map_cons, checkPoints, checkPoints, PointAt.place_canonical, PointAt.document_canonical, ih]

theorem length_reread (m : Module) (b : MethodBody) : (b.reread m).code.length = b.code.length :=
  (widened_promote b.code).length_eq.symm

variable {m m' : Module} {b : MethodBody}

theorem Placed.reread (placed : Placed m.documents.length b)
    (documents : m.symbols?.isSome = true → m'.documents = m.documents) :
    Placed m'.documents.length (b.reread m) := by
  refine ⟨fun r member => ?_, fun symbols shape => ?_⟩
  · rw [length_reread]
    exact placed.regions r member
  · rw [length_reread]
    change (if m.symbols?.isSome then b.storedSymbols? else none) = some symbols at shape
    split at shape
    · rename_i present
      unfold storedSymbols? at shape
      obtain ⟨own, kept, rfl⟩ := Option.map_eq_some_iff.mp shape
      have points := placed.points own (Option.filter_eq_some_iff.mp kept).1
      rw [documents present]
      exact (checkPoints_canonical own.points none).trans points
    · cases shape

theorem Named.reread (named : Named m b) {maxBodySize : Nat} (readable : b.Readable m maxBodySize)
    (same : m.SameRows m') : Named m' (b.reread m) := by
  refine ⟨?_, fun r member type kind => ?_, ?_⟩
  · exact token?_promote.mpr fun i member token shape =>
      same.contains_of_image (readable.operands i member token shape)
  · exact same.contains_of_image (Bool.and_eq_true_iff.mp (readable.catches r member type kind)).2
  · refine named.signature.imp_right fun ⟨table, contained⟩ => ⟨table, ?_⟩
    change m'.contains b.localSignature = true
    rw [same.contains, contained]
    rw [Token.table?_of_isIn table]
    decide

end MethodBody

namespace ModuleWriter

variable {m m' : Module} {maxBodySize : Nat}

theorem follows_addBody (same : m.SameRows m')
    (documents : m.symbols?.isSome = true → m'.documents = m.documents) (context : String) {b : MethodBody}
    (readable : b.Readable m maxBodySize) : Follows (addBody m context b) (addBody m' context (b.reread m)) := by
  intro d found d' run
  unfold addBody at run ⊢
  obtain ⟨⟨⟩, d₁, placed, run⟩ := bind_eq_ok.mp run
  obtain ⟨⟨⟩, d₂, named, run⟩ := bind_eq_ok.mp run
  obtain ⟨encoded, d₃, encode, run⟩ := bind_eq_ok.mp run
  obtain ⟨promoted, again⟩ := Code.encode_promote encode
  refine bind_eq_ok.mpr ⟨(), d₁, Follows.check (fun passed => ?_) _ _ _ placed,
    bind_eq_ok.mpr ⟨(), d₂, Follows.check (fun passed => ?_) _ _ _ named, bind_eq_ok.mpr ⟨_, d₃, again, run⟩⟩⟩
  · rw [MethodBody.checkIndices_eq_ok] at passed ⊢
    exact passed.reread documents
  · rw [MethodBody.bodyTokenCheck_eq_ok] at passed ⊢
    exact passed.reread readable same

theorem follows_addMethodBody (same : m.SameRows m')
    (documents : m.symbols?.isSome = true → m'.documents = m.documents) (context : String) {method : MethodDef}
    (readable : method.AllBodies (MethodBody.Readable m maxBodySize)) :
    Follows (addMethodBody m context method.body?) (addMethodBody m' context (method.reread m).body?) := by
  unfold MethodDef.AllBodies at readable
  unfold MethodDef.reread
  cases shape : method.body? with
  | none => exact .refl _
  | some b =>
    rw [Option.map_some]
    simp only [addMethodBody]
    refine (Follows.refl _).bind fun _ => (Follows.refl _).bind fun d => ?_
    split
    · exact .throw
    · exact (follows_addBody same documents context (readable b shape)).bind fun _ => .refl _

theorem follows_methodRows (same : m.SameRows m')
    (documents : m.symbols?.isSome = true → m'.documents = m.documents) {owner owner' : TypeDef}
    (name : owner.fullName = owner'.fullName) (firstParam : Nat) {method : MethodDef}
    (readable : method.AllBodies (MethodBody.Readable m maxBodySize)) :
    Follows (methodRows m owner firstParam method) (methodRows m' owner' firstParam (method.reread m)) := by
  unfold methodRows TypeDef.methodText
  rw [← name]
  exact (follows_addMethodBody same documents _ readable).bind fun _ => .refl _

theorem follows_allMethodRows (same : m.SameRows m')
    (documents : m.symbols?.isSome = true → m'.documents = m.documents) {owner owner' : TypeDef}
    (name : owner.fullName = owner'.fullName) (firstParam : Nat) {methods : List MethodDef}
    (readable : ∀ method ∈ methods, method.AllBodies (MethodBody.Readable m maxBodySize)) :
    Follows (allMethodRows m owner firstParam methods)
      (allMethodRows m' owner' firstParam (methods.map (MethodDef.reread m))) := by
  induction methods generalizing firstParam with
  | nil => exact .refl _
  | cons method methods ih =>
    obtain ⟨own, others⟩ := List.forall_mem_cons.mp readable
    rw [List.map_cons, allMethodRows, allMethodRows]
    exact (follows_methodRows same documents name firstParam own).bind fun _ => (ih _ others).bind fun _ => .refl _

theorem follows_typeRows (same : m.SameRows m')
    (documents : m.symbols?.isSome = true → m'.documents = m.documents) (firstField firstMethod firstParam : Nat)
    {t : TypeDef} (readable : ∀ method ∈ t.methods, method.AllBodies (MethodBody.Readable m maxBodySize)) :
    Follows (typeRows m firstField firstMethod firstParam t)
      (typeRows m' firstField firstMethod firstParam (t.reread m)) := by
  unfold typeRows
  exact (follows_baseType same t _).bind fun _ => (Follows.refl _).bind fun _ => (Follows.refl _).bind fun _ =>
    (Follows.refl _).bind fun _ =>
      (follows_allMethodRows same documents (show t.fullName = (t.reread m).fullName from rfl) firstParam readable).bind
        fun _ => .refl _

theorem follows_allTypeRows (same : m.SameRows m')
    (documents : m.symbols?.isSome = true → m'.documents = m.documents) (firstField firstMethod firstParam : Nat)
    {types : List TypeDef}
    (readable : ∀ t ∈ types, ∀ method ∈ t.methods, method.AllBodies (MethodBody.Readable m maxBodySize)) :
    Follows (allTypeRows m firstField firstMethod firstParam types)
      (allTypeRows m' firstField firstMethod firstParam (types.map (TypeDef.reread m))) := by
  induction types generalizing firstField firstMethod firstParam with
  | nil => exact .refl _
  | cons t types ih =>
    obtain ⟨own, others⟩ := List.forall_mem_cons.mp readable
    have count : (t.reread m).methods.length = t.methods.length := List.length_map _
    have params : (t.reread m).methods.map (·.params.length) = t.methods.map (·.params.length) := by
      change (t.methods.map (MethodDef.reread m)).map _ = _
      rw [List.map_map]
      rfl
    rw [List.map_cons, allTypeRows, allTypeRows, count, params]
    exact (follows_typeRows same documents _ _ _ own).bind fun _ => (ih _ _ _ others).bind fun _ => .refl _

end ModuleWriter

namespace Module

variable {m m' : Module} {f : Symbol → Result Symbol}

theorem methodList_reread (m : Module) :
    m.reread.methodList = m.methodList.map fun (t, method) => (t.reread m, method.reread m) := by
  unfold Module.methodList Module.reread
  rw [List.flatMap_map, List.map_flatMap]
  refine List.flatMap_congr fun t _ => ?_
  change (t.methods.map (MethodDef.reread m)).map _ = _
  rw [List.map_map, List.map_map]
  rfl

theorem sameRows_reread (m : Module) {types members : List (Option Symbol)} (typeCount : types.length = m.typeRefs.length)
    (memberCount : members.length = m.memberRefs.length) : m.SameRows (m.reread.withDefinitions types members) := by
  intro t other
  have typeRefs : (m.reread.withDefinitions types members).typeRefs.length = m.typeRefs.length := by
    rw [m.typeRefs_reread, List.length_zipWith, typeCount, Nat.min_self]
  have memberRefs : (m.reread.withDefinitions types members).memberRefs.length = m.memberRefs.length := by
    rw [m.memberRefs_reread, List.length_zipWith, memberCount, Nat.min_self]
  have fields : (m.reread.withDefinitions types members).types.map (·.fields.length) = m.types.map (·.fields.length) := by
    change (m.types.map (TypeDef.reread m)).map _ = _
    rw [List.map_map]
    rfl
  have methods : (m.reread.withDefinitions types members).types.map (·.methods.length) =
      m.types.map (·.methods.length) := by
    change (m.types.map (TypeDef.reread m)).map _ = _
    rw [List.map_map]
    refine List.map_congr_left fun t _ => ?_
    exact List.length_map _
  have params : (m.reread.withDefinitions types members).methodList.map (·.2.params.length) =
      m.methodList.map (·.2.params.length) := by
    change m.reread.methodList.map _ = _
    rw [methodList_reread, List.map_map]
    rfl
  have count : (m.reread.withDefinitions types members).types.length = m.types.length := List.length_map _
  cases t with
  | document => exact absurd rfl other
  | typeRef => exact typeRefs
  | memberRef => exact memberRefs
  | typeDef => exact count
  | field => exact congrArg List.sum fields
  | methodDef => exact congrArg List.sum methods
  | param => exact congrArg List.sum params
  | methodDebugInformation =>
    change (if m.symbols?.isSome then _ else 0) = (if m.symbols?.isSome then _ else 0)
    rw [methods]
  | _ => rfl

end Module

theorem forall₂_zipWith {α β γ : Type} (g : α → β → γ) {as : List α} {bs : List β} (count : bs.length = as.length) :
    List.Forall₂ (fun a c => ∃ b, c = g a b) as (as.zipWith g bs) := by
  induction as generalizing bs with
  | nil => exact .nil
  | cons a as ih =>
    cases bs with
    | nil => cases count
    | cons b bs => exact .cons ⟨b, rfl⟩ (ih (Nat.succ.inj count))

theorem forall₂_zipIdx {α β : Type} {R : α → β → Prop} {as : List α} {bs : List β} (all : List.Forall₂ R as bs)
    (start : Nat) : List.Forall₂ (fun a b => R a.1 b.1 ∧ a.2 = b.2) (as.zipIdx start) (bs.zipIdx start) := by
  induction all generalizing start with
  | nil => exact .nil
  | cons first others ih =>
    rw [List.zipIdx_cons, List.zipIdx_cons]
    exact .cons ⟨first, rfl⟩ (ih _)

namespace ModuleRows

open ModuleWriter

variable {m : Module} {maxBodySize : Nat} {types members : List (Option Symbol)}

theorem entryPointCheck_reread (same : m.SameRows (m.reread.withDefinitions types members))
    (passed : entryPointCheck m = .ok ()) : entryPointCheck (m.reread.withDefinitions types members) = .ok () := by
  have point : (m.reread.withDefinitions types members).entryPoint =
      if m.symbols?.isSome then m.entryPoint else .null := rfl
  unfold entryPointCheck at passed ⊢
  rw [point]
  split
  · split at passed
    · rename_i accepted
      refine if_pos ?_
      rcases Bool.or_eq_true_iff.mp accepted with null | named
      · rw [null]
        rfl
      · obtain ⟨table, contained⟩ := Bool.and_eq_true_iff.mp named
        have other : m.entryPoint.table? ≠ some .document := by
          rw [Token.table?_of_isIn table]
          decide
        rw [table, same.contains other, contained]
        exact Bool.or_true _
    · cases passed
  · rfl

/-- The rows of a module that was read are written as those of the module it was read from. -/
theorem follows_ofModule (typeCount : types.length = m.typeRefs.length) (memberCount : members.length = m.memberRefs.length)
    (readable : ∀ t ∈ m.types, ∀ method ∈ t.methods, method.AllBodies (MethodBody.Readable m maxBodySize)) :
    Follows (ModuleRows.ofModule m) (ModuleRows.ofModule (m.reread.withDefinitions types members)) := by
  have same := m.sameRows_reread typeCount memberCount
  have documents : m.symbols?.isSome = true → (m.reread.withDefinitions types members).documents = m.documents :=
    fun present => if_pos present
  have typeRefs := forall₂_zipIdx
    (forall₂_zipWith (fun (r : TypeRef) definition? => { r with definition? }) typeCount) 0
  have memberRefs := forall₂_zipIdx
    (forall₂_zipWith (fun (r : MemberRef) definition? => { r with definition? }) memberCount) 0
  unfold ModuleRows.ofModule
  refine (Follows.check (entryPointCheck_reread same)).bind fun _ => (Follows.refl _).bind fun _ =>
    (Follows.mapM ?_).bind fun _ => (follows_allTypeRows same documents 1 1 1 readable).bind fun _ =>
      (Follows.mapM ?_).bind fun _ => .refl _
  · rw [m.typeRefs_reread]
    refine typeRefs.imp ?_
    rintro ⟨r, position⟩ ⟨r', position'⟩ ⟨⟨definition?, rfl⟩, rfl⟩
    exact follows_typeRefRow same r definition? position
  · rw [m.memberRefs_reread]
    refine memberRefs.imp ?_
    rintro ⟨r, position⟩ ⟨r', position'⟩ ⟨⟨definition?, rfl⟩, rfl⟩
    exact follows_memberRefRow same r definition? position

end ModuleRows

/-- The streams of a module that was read are those of the module it was read from. -/
theorem ModuleStreams.ofModule_reread {m : Module} {maxBodySize : Nat} {types members : List (Option Symbol)}
    {streams : ModuleStreams} (typeCount : types.length = m.typeRefs.length)
    (memberCount : members.length = m.memberRefs.length)
    (readable : ∀ t ∈ m.types, ∀ method ∈ t.methods, method.AllBodies (MethodBody.Readable m maxBodySize))
    (h : ofModule m = .ok streams) : ofModule (m.reread.withDefinitions types members) = .ok streams := by
  unfold ofModule at h ⊢
  cases run : (ModuleRows.ofModule m).run {} with
  | error e d =>
    simp only [run] at h
    cases h
  | ok rows d =>
    have again := ModuleRows.follows_ofModule typeCount memberCount readable _ _ _ run
    simp only [run] at h
    simp only [show (ModuleRows.ofModule (m.reread.withDefinitions types members)).run {} = .ok rows d from again,
      (m.sameRows_reread typeCount memberCount).rowCounts]
    exact h

namespace SymbolWriter

theorem debugRow_canonical {text : String} {symbols : BodySymbols} {offsets : List Nat}
    (points : symbols.points.isEmpty = false) {body? : Option MethodBody}
    (shape : body?.bind (·.symbols?) = some symbols.canonical) {body'? : Option MethodBody}
    (shape' : body'?.bind (·.symbols?) = some symbols) :
    debugRow text body? (some offsets) = debugRow text body'? (some offsets) := by
  have stored : storedPoints offsets symbols.canonical =
      { storedPoints offsets symbols with points := (storedPoints offsets symbols).points.map PointAt.canonical } := by
    unfold storedPoints BodySymbols.canonical
    simp only [List.map_map]
    congr 1
    exact List.map_congr_left fun p _ =>
      (PointAt.canonical_map (fun index => UInt32.ofNat (offsets.toArray[index]?.getD 0)) p).symm
  have points' : symbols.canonical.points.isEmpty = false := by
    rw [BodySymbols.canonical, List.isEmpty_map, points]
  unfold debugRow
  simp only [shape, shape', points, points', stored, SequencePoints.document?_canonical,
    SequencePoints.encode_canonical]

/-- The row of a method is the same for the method that is read. -/
theorem debugRow_reread {m : Module} (present : m.symbols?.isSome = true) (text : String) (method : MethodDef)
    (offsets? : Option (List Nat)) :
    debugRow text (method.reread m).body? offsets? = debugRow text method.body? offsets? := by
  have symbols : (method.reread m).body?.bind (·.symbols?) =
      ((method.body?.bind (·.symbols?)).filter fun s => !s.points.isEmpty).map BodySymbols.canonical := by
    unfold MethodDef.reread
    cases method.body? with
    | none => rfl
    | some b =>
      change (if m.symbols?.isSome then b.storedSymbols? else none) = _
      rw [present]
      rfl
  cases own : method.body?.bind (·.symbols?) with
  | none =>
    rw [own] at symbols
    unfold debugRow
    simp only [symbols, own, Option.filter_none, Option.map_none]
  | some found =>
    rw [own, Option.filter_some] at symbols
    cases offsets? with
    | none =>
      unfold debugRow
      cases (method.reread m).body?.bind (·.symbols?) <;> simp only [own]
    | some offsets =>
      cases empty : found.points.isEmpty with
      | true =>
        rw [empty] at symbols
        unfold debugRow
        simp only [symbols, own, empty, Bool.not_true, Bool.false_eq_true, ↓reduceIte, Option.map_none]
      | false =>
        rw [empty] at symbols
        exact debugRow_canonical empty symbols own

theorem rows_reread {m : Module} (present : m.symbols?.isSome = true) (types members : List (Option Symbol))
    (offsets : List (Option (List Nat))) :
    rows (m.reread.withDefinitions types members) offsets = rows m offsets := by
  have documents : (m.reread.withDefinitions types members).documents = m.documents := if_pos present
  have methods : (m.reread.withDefinitions types members).methodList =
      m.methodList.map fun (t, method) => (t.reread m, method.reread m) := m.methodList_reread
  unfold SymbolWriter.rows
  rw [documents, methods, List.zip_map_left, List.mapM_map]
  congr 2
  funext documents
  congr 2
  funext ⟨⟨t, method⟩, offsets?⟩
  exact debugRow_reread present _ method offsets?

end SymbolWriter

theorem SymbolStreams.ofModule_reread {m : Module} (present : m.symbols?.isSome = true)
    {types members : List (Option Symbol)} (typeCount : types.length = m.typeRefs.length)
    (memberCount : members.length = m.memberRefs.length) (offsets : List (Option (List Nat))) :
    ofModule (m.reread.withDefinitions types members) offsets = ofModule m offsets := by
  have entryPoint : (m.reread.withDefinitions types members).entryPoint = m.entryPoint := if_pos present
  unfold ofModule
  rw [SymbolWriter.rows_reread present, entryPoint, (m.sameRows_reread typeCount memberCount).rowCounts]

namespace Module

variable {digest : Bytes → ImageId} {m : Module} {e : EmittedModule}

/-- A module that was read is written as the module it was read from. -/
theorem emit_reread {maxBodySize : Nat} {types members : List (Option Symbol)} (emitted : m.emit digest = .ok e)
    (typeCount : types.length = m.typeRefs.length) (memberCount : members.length = m.memberRefs.length)
    (readable : ∀ t ∈ m.types, ∀ method ∈ t.methods, method.AllBodies (MethodBody.Readable m maxBodySize)) :
    (m.reread.withDefinitions types members).emit digest = .ok e := by
  unfold Module.emit at emitted ⊢
  obtain ⟨streams, made, emitted⟩ := Outcome.bind_eq_ok.mp emitted
  rw [ModuleStreams.ofModule_reread typeCount memberCount readable made, Outcome.ok_bind]
  have symbols : (m.reread.withDefinitions types members).symbols? = m.symbols? := rfl
  cases present : m.symbols? with
  | none =>
    simp only [present] at emitted
    simp only [symbols, present]
    exact emitted
  | some file =>
    have isSome : m.symbols?.isSome = true := by
      rw [present]
      rfl
    simp only [present] at emitted
    simp only [symbols, present]
    rw [SymbolStreams.ofModule_reread isSome typeCount memberCount]
    exact emitted

/-- The module that is read is written as the images that it was read from. -/
theorem Rereads.emit {f : Symbol → Result Symbol} {found : Module} {maxBodySize : Nat} (rereads : m.Rereads f found)
    (readable : m.Readable maxBodySize) (emitted : m.emit digest = .ok e) : found.emit digest = .ok e := by
  obtain ⟨types, members, references, -, -, rfl⟩ := rereads
  obtain ⟨typeCount, memberCount⟩ := length_of_references references
  exact emit_reread emitted (by rw [List.length_map, typeCount]) (by rw [List.length_map, memberCount]) readable.bodies

theorem Rereads.hasMarkers {f : Symbol → Result Symbol} {found : Module} (rereads : m.Rereads f found)
    (markers : found.HasMarkers) : m.HasMarkers := by
  obtain ⟨types, members, -, -, -, rfl⟩ := rereads
  obtain ⟨t', typeMember', d', member', marker, body⟩ := markers
  obtain ⟨t, typeMember, rfl⟩ := List.mem_map.mp typeMember'
  obtain ⟨d, member, rfl⟩ := List.mem_map.mp member'
  refine ⟨t, typeMember, d, member, marker, ?_⟩
  rw [← body]
  exact Option.isSome_map.symm

theorem Readable.mono {maxBodySize larger : Nat} (readable : m.Readable maxBodySize) (le : maxBodySize ≤ larger) :
    m.Readable larger := by
  refine ⟨readable.rows, readable.documents, fun t typeMember d member b shape => ?_⟩
  obtain ⟨size, reaches, operands, catches, locals⟩ := readable.bodies t typeMember d member b shape
  exact ⟨size.trans le, reaches, operands, catches, locals⟩

/-- Writing what was read gives the images again, identifier included. Weaving these images changes nothing if
    no method is woven. -/
theorem emit_undoes_read {found : Module} {f : Symbol → Result Symbol} {options : ReadOptions} {name : String}
    (emitted : m.emit digest = .ok e) (noNul : '\x00' ∉ m.runtimeVersion.toList)
    (noNulPath : ∀ file ∈ m.symbols?, '\x00' ∉ file.path.toList)
    (read : Module.read (Lookup.ofFunction f) options name e.code (CompiledModule.symbols? ⟨name, e.code, e.symbols⟩) () =
      .ok found ()) :
    found.emit digest = .ok e ∧
    (¬ m.HasMarkers → ∀ time policy,
      (∀ out s, CompiledModule.weave digest (Lookup.ofFunction f) time policy ⟨name, e.code, e.symbols⟩ () = .ok out s →
        out.images = e ∧ out.report.methods = []) ∧
      (m.symbols?.isSome = true → options.maxBodySize ≤ defaultMaxBodySize → ∃ report,
        CompiledModule.weave digest (Lookup.ofFunction f) time policy ⟨name, e.code, e.symbols⟩ () = .ok ⟨e, report⟩ ())) := by
  obtain ⟨rows, d, b, record?, written⟩ := emittedAs_of_emit emitted
  obtain ⟨-, readable, small, smallSymbols, rereads⟩ := (read_eq_ok written noNul noNulPath).mp read
  refine ⟨rereads.emit readable emitted, fun unmarked time policy => ⟨fun out s woven => ?_, fun present within => ?_⟩⟩
  · obtain ⟨other, readOther, emittedOther, report⟩ := CompiledModule.weave_eq_ok.mp woven
    obtain ⟨-, readableOther, -, -, rereadsOther⟩ := (read_eq_ok written noNul noNulPath).mp readOther
    have none : ¬ other.HasMarkers := fun markers => unmarked (rereadsOther.hasMarkers markers)
    rw [weaveMarkers_eq_self none, rereadsOther.emit readableOther emitted] at emittedOther
    exact ⟨(Except.ok.inj emittedOther).symm, by rw [report]; exact markers_eq_nil none⟩
  · have readDefault : Module.read (Lookup.ofFunction f) {} name e.code
        (CompiledModule.symbols? ⟨name, e.code, e.symbols⟩) () = .ok found () :=
      (read_eq_ok written noNul noNulPath).mpr
        ⟨fun _ => present, readable.mono within, small, smallSymbols, rereads⟩
    have none : ¬ found.HasMarkers := fun markers => unmarked (rereads.hasMarkers markers)
    refine ⟨found.weaveReport time, CompiledModule.weave_eq_ok.mpr ⟨found, readDefault, ?_, rfl⟩⟩
    rw [weaveMarkers_eq_self none]
    exact rereads.emit readable emitted

theorem emit_undoes_read_sample : ∃ found, Sample.linked.emit (fun _ => .zero) = .ok Sample.linkedImages ∧
    Module.read (Lookup.ofFunction .ok) {} "a" Sample.linkedImages.code
      (CompiledModule.symbols? ⟨"a", Sample.linkedImages.code, Sample.linkedImages.symbols⟩) () = .ok found () ∧
    found.emit (fun _ => .zero) = .ok Sample.linkedImages ∧ ¬ Sample.linked.HasMarkers ∧
    ∃ report, CompiledModule.weave (fun _ => .zero) (Lookup.ofFunction .ok) .midnight .strip
      ⟨"a", Sample.linkedImages.code, Sample.linkedImages.symbols⟩ () = .ok ⟨Sample.linkedImages, report⟩ () := by
  obtain ⟨found, read⟩ := Sample.read_linked
  obtain ⟨again, woven⟩ := emit_undoes_read Sample.emit_linked (by decide) (by decide) read
  have unmarked : ¬ Sample.linked.HasMarkers := by
    unfold HasMarkers
    decide
  exact ⟨found, Sample.emit_linked, read, again, unmarked, (woven unmarked .midnight .strip).2 rfl le_rfl⟩

end Module

end CilWeaver
