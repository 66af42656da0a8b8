import CilWeaver.Module.Emission
import CilWeaver.Proofs.Resolution
import CilWeaver.Proofs.Scopes

/-!
Which symbols a module is resolved with. Types of other assemblies come first, in the order of their rows, and then the
members of such types. Reading ends well iff all symbols have an answer; otherwise it fails with the first one that has
none.
-/

namespace CilWeaver

namespace Step

/-- A loop whose state holds nothing fails with the first item that fails. -/
theorem mapM_fails {ε α β : Type} {g : α → EStateM ε Unit β} {items : List α} {e : ε} {u u' : Unit}
    (h : items.mapM g u = .error e u') : ∃ earlier a later, items = earlier ++ a :: later ∧
      (∀ b ∈ earlier, ∃ c, g b () = .ok c ()) ∧ g a () = .error e () := by
  induction items generalizing u with
  | nil => cases h
  | cons a items ih =>
    rw [List.mapM_cons, bind_apply] at h
    cases first : g a u with
    | error fault _ =>
      rw [first] at h
      cases h
      exact ⟨[], a, items, rfl, by simp, first⟩
    | ok b _ =>
      rw [first] at h
      dsimp only at h
      rw [bind_apply] at h
      cases others : items.mapM g () with
      | ok bs _ =>
        rw [others] at h
        cases h
      | error fault _ =>
        rw [others] at h
        cases h
        rcases ih others with ⟨earlier, a', later, rfl, passed, failed⟩
        exact ⟨a :: earlier, a', later, rfl, List.forall_mem_cons.mpr ⟨⟨b, first⟩, passed⟩, failed⟩

end Step

open Step

/-- A row with a reference to a type or to a member. -/
inductive ReferenceRow where
  | type (row : Nat)
  | member (row : Nat)

/-- The order in which references are resolved. -/
def ReferenceRow.Before : ReferenceRow → ReferenceRow → Prop
  | type i, type j => i < j
  | type _, member _ => True
  | member _, type _ => False
  | member i, member j => i < j

namespace Module

/-- The reference in a row stands for a symbol of another assembly: a chain of scopes leads to the assembly. -/
inductive RefersTo (m : Module) : ReferenceRow → Symbol → Prop
  | type {row : Nat} {t : TypeName} : m.Refers row (some t) → RefersTo m (.type row) (.type t)
  | member {row : Nat} {r : MemberRef} {t : TypeName} {kind : MemberKind} {signature : String} :
    rowOf? m.memberRefs row = some r → r.parent.isIn .typeRef = true → m.Refers r.parent.row (some t) →
      m.memberSignature r.signature = .ok (kind, signature) →
        RefersTo m (.member row) (.member ⟨t, r.name, kind, signature⟩)

/-- All chains of scopes end, and the signatures of members of other assemblies have texts. -/
structure Formed (m : Module) : Prop where
  types : ∀ row r, rowOf? m.typeRefs row = some r → ∃ type?, m.Refers row type?
  members : ∀ r ∈ m.memberRefs, r.parent.isIn .typeRef = true → ∀ t, m.Refers r.parent.row (some t) →
    ∃ kind signature, m.memberSignature r.signature = .ok (kind, signature)

def symbolAt (types members : List (Option Symbol)) : ReferenceRow → Option Symbol
  | .type row => (rowOf? types row).join
  | .member row => (rowOf? members row).join

theorem join_rowOf?_map {α β : Type} (g : α → β) (items : List (Option α)) (row : Nat) :
    (rowOf? (items.map (·.map g)) row).join = (rowOf? items row).join.map g := by
  rw [← map_rowOf?]
  rcases rowOf? items row with _ | _ | a <;> rfl

variable {m : Module} {types members : List (Option Symbol)} {row : ReferenceRow} {s : Symbol}

theorem references_eq_ok : m.references = .ok (types, members) ↔ ∃ typeNames memberNames,
    m.typeReferences = .ok typeNames ∧ m.memberRefs.mapM (m.memberReference typeNames) = .ok memberNames ∧
      types = typeNames.map (·.map .type) ∧ members = memberNames.map (·.map .member) := by
  unfold references
  rw [Outcome.bind_eq_ok]
  constructor
  · rintro ⟨typeNames, known, h⟩
    rcases Outcome.bind_eq_ok.mp h with ⟨memberNames, listed, last⟩
    cases Outcome.pure_eq_ok.mp last
    exact ⟨typeNames, memberNames, known, listed, rfl, rfl⟩
  · rintro ⟨typeNames, memberNames, known, listed, rfl, rfl⟩
    exact ⟨typeNames, known, Outcome.bind_eq_ok.mpr ⟨memberNames, listed, rfl⟩⟩

namespace Referable

section

variable (referable : m.Referable) {typeNames : List (Option TypeName)} (known : m.typeReferences = .ok typeNames)

include referable known

theorem externalParent?_iff {r : MemberRef} {t : TypeName} :
    externalParent? typeNames r = some t ↔ r.parent.isIn .typeRef = true ∧ m.Refers r.parent.row (some t) := by
  unfold externalParent?
  rw [← referable.listed_iff known]
  by_cases parent : r.parent.isIn .typeRef = true
  · simp [parent, Option.join_eq_some_iff]
  · simp [parent]

theorem memberReference_iff {r : MemberRef} {member : MemberName} :
    m.memberReference typeNames r = .ok (some member) ↔ ∃ t kind signature, r.parent.isIn .typeRef = true ∧
      m.Refers r.parent.row (some t) ∧ m.memberSignature r.signature = .ok (kind, signature) ∧
        member = ⟨t, r.name, kind, signature⟩ := by
  rw [memberReference_eq]
  cases declaring : externalParent? typeNames r with
  | none =>
    constructor
    · intro h
      cases h
    · rintro ⟨t, kind, signature, parent, refers, -⟩
      cases declaring.symm.trans ((referable.externalParent?_iff known).mpr ⟨parent, refers⟩)
  | some own =>
    have external := (referable.externalParent?_iff known).mp declaring
    dsimp only
    rw [Outcome.bind_eq_ok]
    constructor
    · rintro ⟨⟨kind, signature⟩, signed, last⟩
      cases Outcome.pure_eq_ok.mp last
      exact ⟨own, kind, signature, external.1, external.2, signed, rfl⟩
    · rintro ⟨t, kind, signature, -, refers, signed, rfl⟩
      cases referable.refers_unique refers external.2
      exact ⟨(kind, signature), signed, rfl⟩

theorem memberReference_ends_iff {r : MemberRef} : (∃ member?, m.memberReference typeNames r = .ok member?) ↔
    (r.parent.isIn .typeRef = true → ∀ t, m.Refers r.parent.row (some t) →
      ∃ kind signature, m.memberSignature r.signature = .ok (kind, signature)) := by
  rw [memberReference_eq]
  cases declaring : externalParent? typeNames r with
  | none =>
    constructor
    · rintro - parent t refers
      cases declaring.symm.trans ((referable.externalParent?_iff known).mpr ⟨parent, refers⟩)
    · rintro -
      exact ⟨none, rfl⟩
  | some own =>
    have external := (referable.externalParent?_iff known).mp declaring
    dsimp only
    constructor
    · rintro ⟨member?, h⟩ - - -
      rcases Outcome.bind_eq_ok.mp h with ⟨⟨kind, signature⟩, signed, -⟩
      exact ⟨kind, signature, signed⟩
    · intro signs
      rcases signs external.1 own external.2 with ⟨kind, signature, signed⟩
      exact ⟨_, Outcome.bind_eq_ok.mpr ⟨_, signed, rfl⟩⟩

end

variable (referable : m.Referable)

include referable

theorem references_end_iff : (∃ types members, m.references = .ok (types, members)) ↔ m.Formed := by
  constructor
  · rintro ⟨types, members, h⟩
    rcases references_eq_ok.mp h with ⟨typeNames, memberNames, known, listed, -⟩
    refine ⟨referable.typeReferences_end_iff.mp ⟨typeNames, known⟩, fun r member => ?_⟩
    exact (referable.memberReference_ends_iff known).mp (Outcome.mapM_ends_iff.mp ⟨memberNames, listed⟩ r member)
  · rintro ⟨types, members⟩
    rcases referable.typeReferences_end_iff.mpr types with ⟨typeNames, known⟩
    have each := fun r member => (referable.memberReference_ends_iff known).mpr (members r member)
    rcases Outcome.mapM_ends_iff.mpr each with ⟨memberNames, listed⟩
    exact ⟨_, _, references_eq_ok.mpr ⟨typeNames, memberNames, known, listed, rfl, rfl⟩⟩

theorem refersTo_iff (h : m.references = .ok (types, members)) : m.RefersTo row s ↔ symbolAt types members row = some s := by
  rcases references_eq_ok.mp h with ⟨typeNames, memberNames, known, listed, rfl, rfl⟩
  cases row with
  | type row =>
    rw [symbolAt, join_rowOf?_map, Option.map_eq_some_iff]
    constructor
    · rintro ⟨refers⟩
      exact ⟨_, by rw [(referable.listed_iff known).mpr refers]; rfl, rfl⟩
    · rintro ⟨t, listed, rfl⟩
      exact .type ((referable.listed_iff known).mp (Option.join_eq_some_iff.mp listed))
  | member row =>
    have related := rowOf?_of_forall₂ (Outcome.mapM_eq_ok.mp listed) row
    rw [symbolAt, join_rowOf?_map, Option.map_eq_some_iff]
    constructor
    · rintro (_ | ⟨own, parent, refers, signed⟩)
      rw [own] at related
      generalize rowOf? memberNames row = found at related ⊢
      cases related with
      | some answered =>
        have expected := (referable.memberReference_iff known).mpr ⟨_, _, _, parent, refers, signed, rfl⟩
        cases answered.symm.trans expected
        exact ⟨_, rfl, rfl⟩
    · rintro ⟨member, found, rfl⟩
      rw [Option.join_eq_some_iff.mp found] at related
      generalize own : rowOf? m.memberRefs row = r? at related
      cases related with
      | some answered =>
        rcases (referable.memberReference_iff known).mp answered with ⟨t, kind, signature, parent, refers, signed, rfl⟩
        exact .member own parent refers signed

end Referable

/-! Definitions -/

variable {f : Symbol → Result Symbol}

def definition? (m : Module) : ReferenceRow → Option Symbol
  | .type row => (rowOf? m.typeRefs row).bind (·.definition?)
  | .member row => (rowOf? m.memberRefs row).bind (·.definition?)

def undefined (m : Module) : Module :=
  { m with typeRefs := m.typeRefs.map TypeRef.plain, memberRefs := m.memberRefs.map MemberRef.plain }

theorem rowOf?_zipWith_bind {α : Type} {put : α → Option Symbol → α} {get : α → Option Symbol}
    (own : ∀ a found?, get (put a found?) = found?) {items : List α} {found : List (Option Symbol)}
    (count : found.length = items.length) (row : Nat) :
    (rowOf? (items.zipWith put found) row).bind get = (rowOf? found row).join := by
  cases row with
  | zero => rfl
  | succ row =>
    change (items.zipWith put found)[row]?.bind get = found[row]?.join
    rw [List.getElem?_zipWith]
    by_cases inside : row < found.length
    · rw [List.getElem?_eq_getElem inside, List.getElem?_eq_getElem (count ▸ inside)]
      exact own _ _
    · rw [List.getElem?_eq_none (Nat.le_of_not_lt inside)]
      cases items[row]? <;> rfl

theorem definition?_withDefinitions (typeCount : types.length = m.typeRefs.length)
    (memberCount : members.length = m.memberRefs.length) (row : ReferenceRow) :
    (m.withDefinitions types members).definition? row = symbolAt types members row := by
  cases row with
  | type row =>
    apply rowOf?_zipWith_bind _ typeCount
    exact fun _ _ => rfl
  | member row =>
    apply rowOf?_zipWith_bind _ memberCount
    exact fun _ _ => rfl

theorem undefined_withDefinitions (typeCount : types.length = m.typeRefs.length)
    (memberCount : members.length = m.memberRefs.length) : (m.withDefinitions types members).undefined = m.undefined := by
  have same := sameNames_withDefinitions typeCount memberCount
  unfold undefined
  rw [same.typeRefs, same.memberRefs]
  rfl

theorem symbolAt_answers (row : ReferenceRow) :
    symbolAt (types.map (Symbol.answer? f)) (members.map (Symbol.answer? f)) row =
      Symbol.answer? f (symbolAt types members row) := by
  have join (items : List (Option Symbol)) (row : Nat) :
      (rowOf? (items.map (Symbol.answer? f)) row).join = Symbol.answer? f (rowOf? items row).join := by
    rw [← map_rowOf?]
    cases rowOf? items row <;> rfl
  cases row <;> exact join _ _

theorem answered_iff {symbols : List (Option Symbol)} : Symbol.Answered f symbols ↔
    ∀ row s, (rowOf? symbols row).join = some s → ∃ d, f s = .ok d := by
  unfold Symbol.Answered
  constructor
  · intro answered row s listed
    exact answered s (mem_of_rowOf? (Option.join_eq_some_iff.mp listed))
  · intro each s member
    rcases List.getElem?_of_mem member with ⟨index, own⟩
    exact each (index + 1) s (Option.join_eq_some_iff.mpr own)

theorem answered_both_iff : Symbol.Answered f types ∧ Symbol.Answered f members ↔
    ∀ row s, symbolAt types members row = some s → ∃ d, f s = .ok d := by
  rw [answered_iff, answered_iff]
  constructor
  · rintro ⟨ofTypes, ofMembers⟩ (row | row)
    · exact ofTypes row
    · exact ofMembers row
  · intro each
    exact ⟨fun row => each (.type row), fun row => each (.member row)⟩

/-! Failures -/

theorem resolveOne_eq_error {s : Symbol} {e : Error} {u u' : Unit} :
    resolveOne (Lookup.ofFunction f) s u = .error e u' ↔ ∃ cause, f s = .error cause ∧ e = .unresolved s.text cause := by
  unfold resolveOne Lookup.ofFunction
  cases f s with
  | ok d =>
    constructor
    · intro h
      cases h
    · rintro ⟨cause, h, -⟩
      cases h
  | error cause =>
    constructor
    · intro h
      cases h
      exact ⟨cause, rfl, rfl⟩
    · rintro ⟨_, h, rfl⟩
      cases h
      rfl

/-- Resolving fails with the first symbol of the list that has no answer. -/
theorem resolveAll_fails {symbols : List (Option Symbol)} {e : Error} {u u' : Unit}
    (h : resolveAll (Lookup.ofFunction f) symbols u = .error e u') : ∃ earlier s later cause,
      symbols = earlier ++ some s :: later ∧ Symbol.Answered f earlier ∧ f s = .error cause ∧
        e = .unresolved s.text cause := by
  rcases mapM_fails h with ⟨earlier, symbol?, later, rfl, passed, failed⟩
  have answered : Symbol.Answered f earlier := by
    intro s member
    rcases passed _ member with ⟨found, run⟩
    dsimp only at run
    rw [map_apply] at run
    split at run
    · rename_i d _ own
      exact ⟨d, resolveOne_eq_ok.mp own⟩
    · cases run
  cases symbol? with
  | none => cases failed
  | some s =>
    dsimp only at failed
    rw [map_apply] at failed
    split at failed
    · cases failed
    · rename_i own
      cases failed
      rcases resolveOne_eq_error.mp own with ⟨cause, unknown, rfl⟩
      exact ⟨earlier, s, later, cause, rfl, answered, unknown, rfl⟩

/-- Of a list of symbols, the rows before one are those at smaller positions. -/
theorem answered_before {earlier later : List (Option Symbol)} {symbol? : Option Symbol} (answered : Symbol.Answered f earlier)
    {row : Nat} (before : row < earlier.length + 1) {s : Symbol}
    (listed : (rowOf? (earlier ++ symbol? :: later) row).join = some s) : ∃ d, f s = .ok d := by
  cases row with
  | zero => cases listed
  | succ row =>
    have own := Option.join_eq_some_iff.mp listed
    change (earlier ++ symbol? :: later)[row]? = some (some s) at own
    rw [List.getElem?_append_left (Nat.lt_of_succ_lt_succ before)] at own
    exact answered s (List.mem_of_getElem? own)

theorem resolve_fails {e : Error} {u u' : Unit} (known : m.references = .ok (types, members))
    (h : m.resolve (Lookup.ofFunction f) u = .error e u') : ∃ row s cause, symbolAt types members row = some s ∧
      f s = .error cause ∧ e = .unresolved s.text cause ∧
        ∀ earlier s', earlier.Before row → symbolAt types members earlier = some s' → ∃ d, f s' = .ok d := by
  have place {earlier later : List (Option Symbol)} {s : Symbol} :
      (rowOf? (earlier ++ some s :: later) (earlier.length + 1)).join = some s := by
    change (earlier ++ some s :: later)[earlier.length]?.join = some s
    simp
  unfold resolve at h
  rw [known] at h
  dsimp only at h
  rw [bind_apply] at h
  split at h
  · rename_i found _ ofTypes
    rw [bind_apply] at h
    split at h
    · cases h
    · rename_i ofMembers
      cases h
      have answeredTypes := (resolveAll_eq_ok.mp ofTypes).1
      rcases resolveAll_fails ofMembers with ⟨front, s, back, cause, rfl, answered, unknown, rfl⟩
      refine ⟨.member (front.length + 1), s, cause, place, unknown, rfl, fun earlier s' before listed => ?_⟩
      cases earlier with
      | type row => exact answered_iff.mp answeredTypes row s' listed
      | member row => exact answered_before answered before listed
  · rename_i ofTypes
    cases h
    rcases resolveAll_fails ofTypes with ⟨front, s, back, cause, rfl, answered, unknown, rfl⟩
    refine ⟨.type (front.length + 1), s, cause, place, unknown, rfl, fun earlier s' before listed => ?_⟩
    cases earlier with
    | type row => exact answered_before answered before listed
    | member row => cases before

/-! Reading -/

/-- A read of images that can be loaded resolves what they refer to. It ends well iff the function has an answer for
each symbol. Then the rows that stand for symbols have the answers as their definitions, the other rows have none, and
all else is as it was loaded. If not, the failure names the first symbol without an answer, and why it has none. -/
theorem read_resolves {options : ReadOptions} {name : String} {code : Bytes} {symbols? : Option Bytes}
    (given : options.symbolsRequired = true → symbols?.isSome = true)
    (loaded : ofImages name options.maxBodySize code symbols? = .ok m) (formed : m.Formed) :
    ((∃ found, read (Lookup.ofFunction f) options name code symbols? () = .ok found ()) ↔
      ∀ row s, m.RefersTo row s → ∃ d, f s = .ok d) ∧
    (∀ found, read (Lookup.ofFunction f) options name code symbols? () = .ok found () → found.undefined = m.undefined ∧
      ∀ row d, found.definition? row = some d ↔ ∃ s, m.RefersTo row s ∧ f s = .ok d) ∧
    ∀ e, read (Lookup.ofFunction f) options name code symbols? () = .error e () → ∃ row s cause, m.RefersTo row s ∧
      f s = .error cause ∧ e = .unresolved s.text cause ∧
        ∀ earlier s', earlier.Before row → m.RefersTo earlier s' → ∃ d, f s' = .ok d := by
  have referable := referable_of_ofImages loaded
  rcases referable.references_end_iff.mpr formed with ⟨types, members, known⟩
  have loads : read (Lookup.ofFunction f) options name code symbols? = m.resolve (Lookup.ofFunction f) := by
    have present : (symbols?.isNone && options.symbolsRequired) = false := by
      cases required : options.symbolsRequired with
      | true => simpa using given required
      | false => simp
    unfold read
    simp only [present, loaded]
    rfl
  have stands {row : ReferenceRow} {s : Symbol} : m.RefersTo row s ↔ symbolAt types members row = some s :=
    referable.refersTo_iff known
  simp only [loads, stands]
  refine ⟨?_, fun found h => ?_, fun e h => resolve_fails known h⟩
  · rw [← answered_both_iff]
    constructor
    · rintro ⟨found, h⟩
      rcases resolve_eq_ok.mp h with ⟨types', members', same, ofTypes, ofMembers, -⟩
      cases known.symm.trans same
      exact ⟨ofTypes, ofMembers⟩
    · rintro ⟨ofTypes, ofMembers⟩
      exact ⟨_, resolve_eq_ok.mpr ⟨types, members, known, ofTypes, ofMembers, rfl⟩⟩
  · rcases resolve_eq_ok.mp h with ⟨types', members', same, -, -, rfl⟩
    cases known.symm.trans same
    rcases length_of_references known with ⟨typeCount, memberCount⟩
    rw [← List.length_map (Symbol.answer? f)] at typeCount memberCount
    refine ⟨undefined_withDefinitions typeCount memberCount, fun row d => ?_⟩
    rw [definition?_withDefinitions typeCount memberCount, symbolAt_answers]
    unfold Symbol.answer?
    rw [Option.bind_eq_some_iff]
    have answer (s : Symbol) : (f s).toOption = some d ↔ f s = .ok d := by
      cases f s <;> simp [Except.toOption]
    simp only [answer]

end Module

namespace Sample

/-- A module with a type and a member of its own, and a member of a type that is inside of one of another assembly. -/
def importing : Module :=
  { name := "a"
    runtimeVersion := "v4"
    assemblyRefs := [⟨"lib", ⟨1, 0, 0, 0⟩, 0, [], "", []⟩]
    typeRefs := [{ scope := .ofRow .typeRef 2, namespaceName := "", name := "Item" },
                 { scope := .ofRow .assemblyRef 1, namespaceName := "Lib", name := "Box" },
                 { scope := .ofRow .module 1, namespaceName := "", name := "Own" }]
    memberRefs := [{ parent := .ofRow .typeRef 3, name := "Get", signature := [0x20, 0, 1] },
                   { parent := .ofRow .typeRef 1, name := "Put", signature := [0x20, 1, 1, 0x12, 9] }] }

def importingImage : Bytes := (importing.emit fun _ => .zero).toOption.elim [] (·.code)

/-- Types are known, and members are not. -/
def knowsTypes : Symbol → Result Symbol
  | .type t => .ok (.type t)
  | .member m => .error (.notFound m.text)

def put : Symbol := .member ⟨⟨"lib", "Lib", "Box/Item"⟩, "Put", .method, "instance void(Lib.Box)"⟩

end Sample

theorem Module.read_resolves_sample : ∃ m row s cause,
    ofImages "a" defaultMaxBodySize Sample.importingImage none = .ok m ∧ m.Formed ∧ m.RefersTo (.member 2) Sample.put ∧
      m.RefersTo row s ∧ Sample.knowsTypes s = .error cause ∧
        read (Lookup.ofFunction Sample.knowsTypes) { symbolsRequired := false } "a" Sample.importingImage none () =
          .error (.unresolved s.text cause) () := by
  have loads : ((ofImages "a" defaultMaxBodySize Sample.importingImage none).toOption.any fun m =>
      m.references.toOption.any fun symbols => symbolAt symbols.1 symbols.2 (.member 2) == some Sample.put) = true := by
    decide +kernel
  rcases Outcome.exists_of_any loads with ⟨m, loaded, known⟩
  rcases Outcome.exists_of_any known with ⟨⟨types, members⟩, known, listed⟩
  have referable := referable_of_ofImages loaded
  have formed := referable.references_end_iff.mp ⟨types, members, known⟩
  have refers := (referable.refersTo_iff known).mpr (eq_of_beq listed)
  rcases @read_resolves m Sample.knowsTypes { symbolsRequired := false } "a" Sample.importingImage none
    (fun required => by cases required) loaded formed with ⟨ends, -, fails⟩
  cases result : read (Lookup.ofFunction Sample.knowsTypes) { symbolsRequired := false } "a" Sample.importingImage none () with
  | ok found _ =>
    rcases ends.mp ⟨found, result⟩ _ _ refers with ⟨d, answer⟩
    cases answer
  | error e _ =>
    rcases fails e result with ⟨row, s, cause, stands, unknown, rfl, -⟩
    exact ⟨m, row, s, cause, loaded, formed, refers, stands, unknown, rfl⟩

end CilWeaver
