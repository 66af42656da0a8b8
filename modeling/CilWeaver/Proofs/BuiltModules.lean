import CilWeaver.Module.Builder
import CilWeaver.Proofs.Resolution

/-!
Modules that are built call by call. What a call adds to a table becomes the last row of the table and stays where it
is, so that the token that was answered for it keeps its meaning. A call that fails changes nothing.
-/

namespace CilWeaver

open Step

/-- Something that a call can add to a module. Fields and methods have an owner, which is the row of a type. -/
inductive Item where
  | assemblyRef (r : AssemblyRef)
  | typeRef (r : TypeRef)
  | memberRef (r : MemberRef)
  | localSignature (signature : Bytes)
  /-- A type is added without members. -/
  | type (t : TypeDef)
  | field (owner : Nat) (f : FieldDef)
  | method (owner : Nat) (d : MethodDef)
  | document (d : Document)

namespace Item

def table : Item → Table
  | assemblyRef _ => .assemblyRef
  | typeRef _ => .typeRef
  | memberRef _ => .memberRef
  | localSignature _ => .standAloneSig
  | type _ => .typeDef
  | field _ _ => .field
  | method _ _ => .methodDef
  | document _ => .document

end Item

namespace TypeDef

def bare (t : TypeDef) : TypeDef := { t with fields := [], methods := [] }

/-- All members of one kind in the order of their rows, each with its type. -/
def members {α : Type} (part : TypeDef → List α) (types : List TypeDef) : List (TypeDef × α) :=
  types.flatMap fun t => (part t).map (t, ·)

end TypeDef

/-- The module has the item in the given row of its table. -/
def Module.HasAt (m : Module) (row : Nat) : Item → Prop
  | .assemblyRef r => rowOf? m.assemblyRefs row = some r
  | .typeRef r => rowOf? m.typeRefs row = some r
  | .memberRef r => rowOf? m.memberRefs row = some r
  | .localSignature signature => rowOf? m.localSignatures row = some signature
  | .type t => ∃ found, rowOf? m.types row = some found ∧ found.bare = t
  | .field owner f =>
    ∃ t, rowOf? (TypeDef.members (·.fields) m.types) row = some (t, f) ∧ rowOf? m.types owner = some t
  | .method owner d => ∃ t, rowOf? m.methodList row = some (t, d) ∧ rowOf? m.types owner = some t
  | .document d => rowOf? m.documents row = some d

namespace ModuleBuilder

inductive Call where
  | setMvid (mvid : Guid)
  | setAssembly (name : String) (version : Version)
  | setSymbols (path : String)
  | setEntryPoint (method : Token)
  | addAssemblyRef (name : String) (version : Version)
  | addTypeRef (scope : Token) (namespaceName name : String)
  | addMethodRef (parent : Token) (name : String) (signature : MethodSig)
  | addFieldRef (parent : Token) (name : String) (type : TypeSig)
  | addLocals (types : List TypeSig)
  | addType (namespaceName name : String) (baseType : Token)
  | addField (name : String) (flags : UInt16) (type : TypeSig)
  | addMethod (name : String) (flags : UInt16) (signature : MethodSig) (body? : Option MethodBody)
  | addDocument (name : String)

inductive Answer where
  | nothing
  | token (value : Token)
  | document (row : Nat)

def Answer.place? : Answer → Option (Table × Nat)
  | nothing => none
  | token value => value.table?.map (·, value.row)
  | document row => some (.document, row)

def Answer.naming (item : Item) (row : Nat) : Answer :=
  match item with
  | .document _ => .document row
  | _ => .token (.ofRow item.table row)

namespace Call

def perform : Call → ModuleBuilder Answer
  | setMvid mvid => do
    ModuleBuilder.setMvid mvid
    return .nothing
  | setAssembly name version => do
    ModuleBuilder.setAssembly name version
    return .nothing
  | setSymbols path => do
    ModuleBuilder.setSymbols path
    return .nothing
  | setEntryPoint method => do
    ModuleBuilder.setEntryPoint method
    return .nothing
  | addAssemblyRef name version => do return .token (← ModuleBuilder.addAssemblyRef name version)
  | addTypeRef scope namespaceName name => do return .token (← ModuleBuilder.addTypeRef scope namespaceName name)
  | addMethodRef parent name signature => do return .token (← ModuleBuilder.addMethodRef parent name signature)
  | addFieldRef parent name type => do return .token (← ModuleBuilder.addFieldRef parent name type)
  | addLocals types => do return .token (← ModuleBuilder.addLocals types)
  | addType namespaceName name baseType => do return .token (← ModuleBuilder.addType namespaceName name baseType)
  | addField name flags type => do return .token (← ModuleBuilder.addField name flags type)
  | addMethod name flags signature body? => do return .token (← ModuleBuilder.addMethod name flags signature body?)
  | addDocument name => do return .document (← ModuleBuilder.addDocument name)

/-- What the call is meant to add to a module with the given number of types; a signature may have no encoding. -/
def item? (types : Nat) : Call → Option (Result Item)
  | setMvid _ | setAssembly _ _ | setSymbols _ | setEntryPoint _ => none
  | addAssemblyRef name version =>
    some (.ok (.assemblyRef { name, version, flags := 0, key := [], culture := "", hash := [] }))
  | addTypeRef scope namespaceName name => some (.ok (.typeRef { scope, namespaceName, name }))
  | addMethodRef parent name signature =>
    some ((Signature.encodeMethod signature).map fun signature => .memberRef { parent, name, signature })
  | addFieldRef parent name type =>
    some ((Signature.encodeField type).map fun signature => .memberRef { parent, name, signature })
  | addLocals types => some ((Signature.encodeLocals types).map .localSignature)
  | addType namespaceName name baseType =>
    some (.ok (.type { flags := typeFlags, namespaceName, name, baseType, fields := [], methods := [] }))
  | addField name flags type =>
    some ((Signature.encodeField type).map fun signature => .field types { flags, name, signature })
  | addMethod name flags signature body? =>
    let params := paramDefs signature.parameters.length
    some ((Signature.encodeMethod signature).map fun signature =>
      .method types { flags, implFlags := 0, name, signature, params, body? })
  | addDocument name =>
    some (.ok (.document { name, hashAlgorithm := Document.sha1, hash := [], language := Document.csharp }))

end Call

/-- Calls one after the other, also behind one that fails. The result is what each call answered, and the module. -/
def run : List Call → Module → List (Result Answer) × Module
  | [], m => ([], m)
  | call :: calls, m =>
    let (answer, m') : Result Answer × Module := match call.perform m with
      | .ok answer m' => (.ok answer, m')
      | .error e m' => (.error e, m')
    let (answers, last) := run calls m'
    (answer :: answers, last)

def answers (name : String) (calls : List Call) : List (Result Answer) := (run calls (start name)).1

def built (name : String) (calls : List Call) : Module := (run calls (start name)).2

end ModuleBuilder

/-! The items of a module -/

namespace TypeDef

variable {α : Type} (part : TypeDef → List α)

/-- All members of one kind in the order of their rows, each with the row of its type. -/
def owned (types : List TypeDef) : List (Nat × α) :=
  types.zipIdx.flatMap fun (t, index) => (part t).map (index + 1, ·)

theorem owned_concat (types : List TypeDef) (t : TypeDef) :
    owned part (types ++ [t]) = owned part types ++ (part t).map (types.length + 1, ·) := by
  rw [owned, List.zipIdx_append, List.flatMap_append]
  simp [owned]

theorem length_owned (types : List TypeDef) : (owned part types).length = (types.map fun t => (part t).length).sum := by
  induction types using List.reverseRecOn with
  | nil => rfl
  | append_singleton types t ih => simp [owned_concat, ih]

theorem members_owned (types : List TypeDef) :
    List.Forall₂ (fun member place => member.2 = place.2 ∧ Module.rowOf? types place.1 = some member.1)
      (members part types) (owned part types) := by
  have numbered : List.Forall₂ (fun t place => place.1 = t ∧ Module.rowOf? types (place.2 + 1) = some t) types
      types.zipIdx := by
    have each : List.Forall₂ (fun t place => place.1 = t ∧ Module.rowOf? types (place.2 + 1) = some t)
        (types.zipIdx.map Prod.fst) types.zipIdx := by
      rw [List.forall₂_map_left_iff, List.forall₂_same]
      exact fun place member => ⟨rfl, List.mem_zipIdx_iff_getElem?.mp member⟩
    rwa [List.zipIdx_map_fst] at each
  refine forall₂_flatMap numbered fun t place related => ?_
  obtain ⟨rfl, found⟩ := related
  rw [List.forall₂_map_left_iff, List.forall₂_map_right_iff, List.forall₂_same]
  exact fun a _ => ⟨rfl, found⟩

theorem member_of_owned {types : List TypeDef} {row owner : Nat} {a : α}
    (found : Module.rowOf? (owned part types) row = some (owner, a)) :
    ∃ t, Module.rowOf? (members part types) row = some (t, a) ∧ Module.rowOf? types owner = some t := by
  have related := Module.rowOf?_of_forall₂ (members_owned part types) row
  rw [found] at related
  cases member : Module.rowOf? (members part types) row with
  | none =>
    rw [member] at related
    cases related
  | some pair =>
    rw [member] at related
    cases related with
    | some both =>
      obtain ⟨rfl, owner⟩ := both
      exact ⟨pair.1, rfl, owner⟩

end TypeDef

namespace Module

/-- The items in the rows of a table that calls can add to. -/
def tableItems (m : Module) : Table → List Item
  | .assemblyRef => m.assemblyRefs.map .assemblyRef
  | .typeRef => m.typeRefs.map .typeRef
  | .memberRef => m.memberRefs.map .memberRef
  | .standAloneSig => m.localSignatures.map .localSignature
  | .typeDef => m.types.map fun t => .type t.bare
  | .field => (TypeDef.owned (·.fields) m.types).map fun (owner, f) => .field owner f
  | .methodDef => (TypeDef.owned (·.methods) m.types).map fun (owner, d) => .method owner d
  | .document => m.documents.map .document
  | _ => []

theorem length_tableItems (m : Module) (item : Item) : (m.tableItems item.table).length = m.rows item.table := by
  cases item <;> simp [tableItems, Item.table, rows, TypeDef.length_owned]

theorem hasAt_of_tableItems {m : Module} {row : Nat} {item : Item} (found : rowOf? (m.tableItems item.table) row = some item) :
    m.HasAt row item := by
  cases item with
  | type t =>
    simp only [tableItems, Item.table, ← map_rowOf?, Option.map_eq_some_iff, Item.type.injEq] at found
    exact found
  | field owner f =>
    simp only [tableItems, Item.table, ← map_rowOf?, Option.map_eq_some_iff, Item.field.injEq] at found
    obtain ⟨place, there, rfl, rfl⟩ := found
    exact TypeDef.member_of_owned _ there
  | method owner d =>
    simp only [tableItems, Item.table, ← map_rowOf?, Option.map_eq_some_iff, Item.method.injEq] at found
    obtain ⟨place, there, rfl, rfl⟩ := found
    exact TypeDef.member_of_owned _ there
  | _ =>
    simp only [tableItems, Item.table, ← map_rowOf?, Option.map_eq_some_iff] at found
    obtain ⟨_, there, same⟩ := found
    cases same
    exact there

/-- The item is the last of its table in the later module; the other items are the same. -/
def Adds (m : Module) (item : Item) (m' : Module) : Prop :=
  ∀ table, m'.tableItems table = m.tableItems table ++ if table = item.table then [item] else []

/-- A later module has the items of the earlier one where they were. -/
def Keeps (m m' : Module) : Prop := ∀ table, m.tableItems table <+: m'.tableItems table

theorem Adds.row {m m' last : Module} {item : Item} (adds : m.Adds item m') (kept : m'.Keeps last) :
    rowOf? (last.tableItems item.table) (m.rows item.table + 1) = some item ∧
      m.rows item.table + 1 ≤ last.rows item.table := by
  obtain ⟨behind, shape⟩ := kept item.table
  rw [adds item.table, if_pos rfl, List.append_assoc] at shape
  rw [← m.length_tableItems, ← last.length_tableItems, ← shape]
  constructor
  · change (_ ++ item :: behind)[_]? = some item
    rw [List.getElem?_append_right (Nat.le_refl _), Nat.sub_self, List.getElem?_cons_zero]
  · rw [List.length_append]
    exact Nat.add_le_add_left (Nat.le_add_left 1 behind.length) _

theorem types_ne_nil_of_keeps {m m' : Module} (keeps : m.Keeps m') (owner : m.types ≠ []) : m'.types ≠ [] := by
  have longer := (keeps .typeDef).length_le
  simp only [tableItems, List.length_map] at longer
  have first := List.length_pos_iff.mpr owner
  exact List.length_pos_iff.mp (by omega)

end Module

namespace ModuleBuilder

inductive Ends (m : Module) (item? : Option (Result Item)) : EStateM.Result Error Module Answer → Prop
  | set {m' : Module} : item? = none → m'.tableItems = m.tableItems → Ends m item? (.ok .nothing m')
  | added {item : Item} {m' : Module} : item? = some (.ok item) → m.Adds item m' →
      Ends m item? (.ok (.naming item (m.rows item.table + 1)) m')
  | refused {e : Error} : item? = some (.error e) → Ends m item? (.error e m)

theorem modifyLast_concat (f : TypeDef → TypeDef) (types : List TypeDef) (t : TypeDef) :
    modifyLast f (types ++ [t]) = types ++ [f t] := by
  induction types with
  | nil => rfl
  | cons first types ih =>
    cases types with
    | nil => rfl
    | cons second types => exact congrArg (first :: ·) ih

theorem Ends.ok {m m' : Module} {item : Item} {answer : Answer} (row : answer = .naming item (m.rows item.table + 1))
    (adds : m.Adds item m') : Ends m (some (.ok item)) (.ok answer m') := by
  rw [row]
  exact .added rfl adds

theorem ends_addMemberRef (m : Module) (parent : Token) (name : String) (signature : Bytes) :
    Ends m (some (.ok (.memberRef { parent, name, signature })))
      ((do return .token (← addMemberRef parent name signature) : ModuleBuilder Answer) m) := by
  refine .ok (congrArg (Answer.token ∘ Token.ofRow .memberRef) List.length_append) fun table => ?_
  cases table <;> simp [Module.tableItems, Item.table]

theorem Call.ends (call : Call) {m : Module} (owner : m.types ≠ []) :
    Ends m (call.item? m.types.length) (call.perform m) := by
  cases call with
  | setMvid | setAssembly | setSymbols | setEntryPoint => exact .set rfl rfl
  | addAssemblyRef name version =>
    refine .ok (congrArg (Answer.token ∘ Token.ofRow .assemblyRef) List.length_append) fun table => ?_
    cases table <;> simp [Module.tableItems, Item.table]
  | addTypeRef scope namespaceName name =>
    refine .ok (congrArg (Answer.token ∘ Token.ofRow .typeRef) List.length_append) fun table => ?_
    cases table <;> simp [Module.tableItems, Item.table]
  | addMethodRef parent name signature =>
    simp only [perform, item?, ModuleBuilder.addMethodRef]
    -- a signature is encoded before the module is touched
    cases Signature.encodeMethod signature with
    | error e => exact .refused rfl
    | ok bytes => exact ends_addMemberRef m parent name bytes
  | addFieldRef parent name type =>
    simp only [perform, item?, ModuleBuilder.addFieldRef]
    cases Signature.encodeField type with
    | error e => exact .refused rfl
    | ok bytes => exact ends_addMemberRef m parent name bytes
  | addLocals types =>
    simp only [perform, item?, ModuleBuilder.addLocals]
    cases Signature.encodeLocals types with
    | error e => exact .refused rfl
    | ok bytes =>
      refine .ok (congrArg (Answer.token ∘ Token.ofRow .standAloneSig) List.length_append) fun table => ?_
      cases table <;> simp [Module.tableItems, Item.table]
  | addType namespaceName name baseType =>
    refine .ok (congrArg (Answer.token ∘ Token.ofRow .typeDef) List.length_append) fun table => ?_
    cases table <;> simp [Module.tableItems, Item.table, TypeDef.owned_concat, TypeDef.bare]
  | addField name flags type =>
    -- members go to the last type, so that their rows are the last ones among the members of all types
    obtain ⟨types, t, shape⟩ := (List.eq_nil_or_concat' m.types).resolve_left owner
    simp only [perform, item?, ModuleBuilder.addField]
    cases Signature.encodeField type with
    | error e => exact .refused rfl
    | ok bytes =>
      refine .ok rfl fun table => ?_
      cases table <;> simp [Module.tableItems, Item.table, shape, modifyLast_concat, TypeDef.owned_concat, TypeDef.bare]
  | addMethod name flags signature body? =>
    obtain ⟨types, t, shape⟩ := (List.eq_nil_or_concat' m.types).resolve_left owner
    simp only [perform, item?, ModuleBuilder.addMethod]
    cases Signature.encodeMethod signature with
    | error e => exact .refused rfl
    | ok bytes =>
      refine .ok rfl fun table => ?_
      cases table <;> simp [Module.tableItems, Item.table, shape, modifyLast_concat, TypeDef.owned_concat, TypeDef.bare]
  | addDocument name =>
    refine .ok (congrArg Answer.document List.length_append) fun table => ?_
    cases table <;> simp [Module.tableItems, Item.table]

/-! Runs of calls -/

theorem place?_naming (item : Item) {row : Nat} (small : row < 2 ^ 24) :
    (Answer.naming item row).place? = some (item.table, row) := by
  have token : (Answer.token (.ofRow item.table row)).place? = some (item.table, row) := by
    rw [Answer.place?, Token.table?_ofRow, Token.row_ofRow, Nat.mod_eq_of_lt small, Option.map_some]
  cases item with
  | document d => rfl
  | _ => exact token

theorem Ends.keeps {m m' : Module} {item? : Option (Result Item)} {answer : Answer}
    (ends : Ends m item? (.ok answer m')) : m.Keeps m' := by
  intro table
  cases ends with
  | set _ same => rw [same]
  | added _ adds =>
    rw [adds table]
    exact List.prefix_append _ _

theorem run_cons_ok {call : Call} {calls : List Call} {m m' : Module} {answer : Answer}
    (performed : call.perform m = .ok answer m') :
    run (call :: calls) m = (.ok answer :: (run calls m').1, (run calls m').2) := by
  rw [run, performed]

theorem run_cons_error {call : Call} {calls : List Call} {m m' : Module} {e : Error}
    (performed : call.perform m = .error e m') :
    run (call :: calls) m = (.error e :: (run calls m').1, (run calls m').2) := by
  rw [run, performed]

theorem run_append (earlier later : List Call) (m : Module) :
    (run (earlier ++ later) m).2 = (run later (run earlier m).2).2 := by
  induction earlier generalizing m with
  | nil => rfl
  | cons call earlier ih =>
    rw [List.cons_append]
    cases performed : call.perform m with
    | ok answer m' => rw [run_cons_ok performed, run_cons_ok performed, ih]
    | error e m' => rw [run_cons_error performed, run_cons_error performed, ih]

/-- Calls only add behind what is there. -/
theorem keeps_run (calls : List Call) {m : Module} (owner : m.types ≠ []) : m.Keeps (run calls m).2 := by
  induction calls generalizing m with
  | nil => exact fun table => List.prefix_refl _
  | cons call calls ih =>
    have ends := call.ends owner
    cases performed : call.perform m with
    | ok answer m' =>
      rw [performed] at ends
      rw [run_cons_ok performed]
      exact fun table => (ends.keeps table).trans (ih (Module.types_ne_nil_of_keeps ends.keeps owner) table)
    | error e m' =>
      rw [performed] at ends
      cases ends
      rw [run_cons_error performed]
      exact ih owner

/-- What a call does to the module so far, and what its answer means in the module that is built in the end. -/
def Call.Settles (call : Call) (m last : Module) : Prop :=
  match call.item? m.types.length with
  | none => ∃ m', call.perform m = .ok .nothing m'
  | some (.error e) => call.perform m = .error e m
  | some (.ok item) => ∃ answer m', call.perform m = .ok answer m' ∧
      answer.place? = some (item.table, m.rows item.table + 1) ∧ last.HasAt (m.rows item.table + 1) item

theorem settles_of_later {call : Call} {later : List Call} {m : Module} (owner : m.types ≠ [])
    (small : ∀ table, (run (call :: later) m).2.rows table < 2 ^ 24) : call.Settles m (run (call :: later) m).2 := by
  have ends := call.ends owner
  unfold Call.Settles
  cases performed : call.perform m with
  | error e m' =>
    rw [performed] at ends
    cases ends with
    | refused none => rw [none]
  | ok answer m' =>
    rw [performed] at ends
    have kept := keeps_run later (Module.types_ne_nil_of_keeps ends.keeps owner)
    rw [run_cons_ok performed] at small ⊢
    cases ends with
    | set none same =>
      rw [none]
      exact ⟨m', rfl⟩
    | @added item _ made adds =>
      obtain ⟨there, bound⟩ := adds.row kept
      rw [made]
      exact ⟨_, m', rfl, place?_naming item (Nat.lt_of_le_of_lt bound (small item.table)), Module.hasAt_of_tableItems there⟩

def rowIn? (table : Table) (answer : Result Answer) : Option Nat :=
  match answer.toOption.bind Answer.place? with
  | some (own, row) => if own = table then some row else none
  | none => none

theorem rowIn?_naming (table : Table) (item : Item) {row : Nat} (small : row < 2 ^ 24) :
    rowIn? table (.ok (.naming item row)) = if item.table = table then some row else none := by
  rw [rowIn?, Except.toOption, Option.bind_some, place?_naming item small]

/-- The rows of a table that calls answer are the next ones, in the order of the calls. -/
theorem rows_run (calls : List Call) {m : Module} (owner : m.types ≠ [])
    (small : ∀ table, (run calls m).2.rows table < 2 ^ 24) (table : Table) :
    (run calls m).1.filterMap (rowIn? table) = List.range' ((m.tableItems table).length + 1)
      (((run calls m).2.tableItems table).length - (m.tableItems table).length) := by
  induction calls generalizing m with
  | nil => simp [run]
  | cons call calls ih =>
    have ends := call.ends owner
    cases performed : call.perform m with
    | error e m' =>
      rw [performed] at ends
      cases ends
      rw [run_cons_error performed] at small ⊢
      exact ih owner small
    | ok answer m' =>
      rw [performed] at ends
      have owner' := Module.types_ne_nil_of_keeps ends.keeps owner
      rw [run_cons_ok performed] at small ⊢
      have others := ih owner' small
      cases ends with
      | set none same =>
        rw [← same]
        exact others
      | @added item _ made adds =>
        obtain ⟨there, bound⟩ := adds.row (keeps_run calls owner')
        have first := rowIn?_naming table item (Nat.lt_of_le_of_lt bound (small item.table))
        rw [adds table] at others
        -- in the table of the item its row is the first of the range, any other table has got no row
        by_cases own : item.table = table
        · subst own
          rw [if_pos rfl] at first others
          rw [List.length_append, List.length_singleton] at others
          have later : (m.tableItems item.table).length + 1 ≤ ((run calls m').2.tableItems item.table).length := by
            rwa [m.length_tableItems, Module.length_tableItems]
          have count := Nat.sub_add_cancel (Nat.sub_pos_of_lt later)
          rw [List.filterMap_cons_some first, others, ← m.length_tableItems, ← count, List.range'_succ, Nat.sub_sub]
        · rw [if_neg own] at first
          rw [if_neg (Ne.symm own), List.append_nil] at others
          rw [List.filterMap_cons_none first, others]

/-- What calls have answered for what they add stays true in the module that all of them build, and the rows that they
    answer on one table are consecutive. Only a signature that cannot be encoded makes a call fail, which then changes
    nothing. -/
theorem answers_last (name : String) (calls : List Call) (small : ∀ table, (built name calls).rows table < 2 ^ 24) :
    (∀ earlier call later, calls = earlier ++ call :: later → call.Settles (built name earlier) (built name calls)) ∧
      ∀ table, ∃ count, (answers name calls).filterMap (rowIn? table) =
        List.range' ((start name).rows table + 1) count := by
  have owner : (start name).types ≠ [] := List.cons_ne_nil _ _
  constructor
  · rintro earlier call later rfl
    have split := run_append earlier (call :: later) (start name)
    unfold built at small ⊢
    rw [split] at small ⊢
    exact settles_of_later (Module.types_ne_nil_of_keeps (keeps_run earlier owner) owner) small
  · intro table
    have rows := rows_run calls owner small table
    cases table with
    | module => exact ⟨0, rows⟩
    | _ => exact ⟨_, rows⟩

/-- Members of two types, and in between a reference whose signature names no type. -/
def sampleCalls : List Call :=
  let method (parameters : List TypeSig) : MethodSig := .mk false false 0 0 (.primitive .void) parameters []
  [.addType "A" "B" .null, .addField "f" 0 (.primitive .int32), .addFieldRef .null "r" (.classType .null),
    .addMethod "m" 0 (method [.primitive .int32]) none, .addType "A" "C" (.ofRow .typeDef 2),
    .addField "g" 0 (.vector (.primitive .int32)), .addMethodRef (.ofRow .typeDef 3) "r" (method []),
    .addDocument "d", .setEntryPoint (.ofRow .methodDef 1), .addMethod "n" 0 (method []) none]

theorem answers_last_sample : (∀ table, (built "x" sampleCalls).rows table < 2 ^ 24) ∧
    (∀ earlier call later, sampleCalls = earlier ++ call :: later →
      call.Settles (built "x" earlier) (built "x" sampleCalls)) ∧
    (answers "x" sampleCalls).map (fun answer => answer.toOption.bind Answer.place?) =
      [some (.typeDef, 2), some (.field, 1), none, some (.methodDef, 1), some (.typeDef, 3), some (.field, 2),
        some (.memberRef, 1), some (.document, 1), none, some (.methodDef, 2)] := by
  have small : ∀ table, (built "x" sampleCalls).rows table < 2 ^ 24 := by
    intro table
    cases table <;> decide +kernel
  exact ⟨small, (answers_last "x" sampleCalls small).1, by decide +kernel⟩

end ModuleBuilder

end CilWeaver
