import CilWeaver.Proofs.Catalogs
import CilWeaver.Proofs.Scopes

/-!
Members that one module defines and another one refers to. The signatures on both sides have tokens of their own, and
where these stand for types of the same names, the texts of the signatures are the same. So the catalog of the one
module answers what the other one asks for.
-/

namespace CilWeaver

open Outcome

mutual

/-- The types are the same but for their tokens, which are related place by place. -/
inductive TypeSig.Alike (R : Token → Token → Prop) : TypeSig → TypeSig → Prop
  | primitive (kind : Primitive) : TypeSig.Alike R (.primitive kind) (.primitive kind)
  | pointer {a b} : a.Alike R b → TypeSig.Alike R (.pointer a) (.pointer b)
  | byReference {a b} : a.Alike R b → TypeSig.Alike R (.byReference a) (.byReference b)
  | pinned {a b} : a.Alike R b → TypeSig.Alike R (.pinned a) (.pinned b)
  | vector {a b} : a.Alike R b → TypeSig.Alike R (.vector a) (.vector b)
  | classType {s t} : R s t → TypeSig.Alike R (.classType s) (.classType t)
  | valueType {s t} : R s t → TypeSig.Alike R (.valueType s) (.valueType t)
  | typeParameter (number : UInt32) : TypeSig.Alike R (.typeParameter number) (.typeParameter number)
  | methodParameter (number : UInt32) : TypeSig.Alike R (.methodParameter number) (.methodParameter number)
  | array {a b} (shape : ArrayShape) : a.Alike R b → TypeSig.Alike R (.array a shape) (.array b shape)
  | generic {a b as bs} : a.Alike R b → TypeSig.AllAlike R as bs → TypeSig.Alike R (.generic a as) (.generic b bs)
  | function {m n} : MethodSig.Alike R m n → TypeSig.Alike R (.function m) (.function n)
  | modified {s t a b} (required : Bool) : R s t → a.Alike R b → TypeSig.Alike R (.modified required s a) (.modified required t b)

inductive MethodSig.Alike (R : Token → Token → Prop) : MethodSig → MethodSig → Prop
  | mk {a b as bs xs ys} (this explicit : Bool) (convention : UInt8) (generics : UInt32) : a.Alike R b →
    TypeSig.AllAlike R as bs → TypeSig.AllAlike R xs ys →
      MethodSig.Alike R ⟨this, explicit, convention, generics, a, as, xs⟩ ⟨this, explicit, convention, generics, b, bs, ys⟩

inductive TypeSig.AllAlike (R : Token → Token → Prop) : List TypeSig → List TypeSig → Prop
  | nil : TypeSig.AllAlike R [] []
  | cons {a b as bs} : a.Alike R b → TypeSig.AllAlike R as bs → TypeSig.AllAlike R (a :: as) (b :: bs)

end

/-- The second answer is the first one, if there is a first one. -/
def Outcome.Carries {ε δ α : Type} (x : Except ε α) (y : Except δ α) : Prop := ∀ a, x = .ok a → y = .ok a

namespace Outcome.Carries

variable {ε δ α β : Type} {x : Except ε α} {y : Except δ α}

theorem pure (a : α) : Carries (pure a : Except ε α) (pure a : Except δ α) := by
  intro b h
  rw [pure_eq_ok] at h ⊢
  exact h

theorem bind {f : α → Except ε β} {g : α → Except δ β} (first : Carries x y) (others : ∀ a, Carries (f a) (g a)) :
    Carries (x >>= f) (y >>= g) := by
  intro b h
  rcases bind_eq_ok.mp h with ⟨a, found, last⟩
  exact bind_eq_ok.mpr ⟨a, first a found, others a b last⟩

end Outcome.Carries

section Render

variable {ε δ : Type} {f : Token → Except ε String} {g : Token → Except δ String} {R : Token → Token → Prop}

mutual

/-- Where related tokens have the same names, types that are alike have the same text. -/
theorem TypeSig.render_alike (names : ∀ s t, R s t → Carries (f s) (g t)) :
    ∀ {a b : TypeSig}, a.Alike R b → Carries (a.render f) (b.render g)
  | .primitive kind, _, alike => by
    cases alike
    exact .pure kind.word
  | .pointer _, _, alike => by
    cases alike with
    | pointer base => exact .bind (TypeSig.render_alike names base) fun _ => .pure _
  | .byReference _, _, alike => by
    cases alike with
    | byReference base => exact .bind (TypeSig.render_alike names base) fun _ => .pure _
  | .pinned _, _, alike => by
    cases alike with
    | pinned base => exact .bind (TypeSig.render_alike names base) fun _ => .pure _
  | .vector _, _, alike => by
    cases alike with
    | vector element => exact .bind (TypeSig.render_alike names element) fun _ => .pure _
  | .classType _, _, alike => by
    cases alike with
    | classType related => exact names _ _ related
  | .valueType _, _, alike => by
    cases alike with
    | valueType related => exact names _ _ related
  | .typeParameter _, _, alike => by
    cases alike
    exact .pure _
  | .methodParameter _, _, alike => by
    cases alike
    exact .pure _
  | .array _ _, _, alike => by
    cases alike with
    | array shape element => exact .bind (TypeSig.render_alike names element) fun _ => .pure _
  | .generic _ _, _, alike => by
    cases alike with
    | generic base arguments =>
      exact .bind (TypeSig.renderAll_alike names arguments) fun _ =>
        .bind (TypeSig.render_alike names base) fun _ => .pure _
  | .function _, _, alike => by
    cases alike with
    | function method => exact .bind (MethodSig.render_alike names method) fun _ => .pure _
  | .modified _ _ _, _, alike => by
    cases alike with
    | modified required related base =>
      exact .bind (TypeSig.render_alike names base) fun _ => .bind (names _ _ related) fun _ => .pure _

theorem MethodSig.render_alike (names : ∀ s t, R s t → Carries (f s) (g t)) :
    ∀ {a b : MethodSig}, a.Alike R b → Carries (a.render f) (b.render g)
  | ⟨_, _, _, _, _, _, _⟩, _, alike => by
    cases alike with
    | mk this explicit convention generics returns parameters _ =>
      exact .bind (TypeSig.render_alike names returns) fun _ =>
        .bind (TypeSig.renderAll_alike names parameters) fun _ => .pure _

theorem TypeSig.renderAll_alike (names : ∀ s t, R s t → Carries (f s) (g t)) :
    ∀ {as bs : List TypeSig}, TypeSig.AllAlike R as bs → Carries (TypeSig.renderAll f as) (TypeSig.renderAll g bs)
  | [], _, alike => by
    cases alike
    exact .pure []
  | _ :: _, _, alike => by
    cases alike with
    | cons first others =>
      exact .bind (TypeSig.render_alike names first) fun _ =>
        .bind (TypeSig.renderAll_alike names others) fun _ => .pure _

end

end Render

/-! Signatures -/

namespace Signature

variable {blob : Bytes}

theorem header_of_parse {α : Type} {f : UInt8 → Reader α} {a : α} (h : (Reader.byte >>= f).parse blob = .ok a) :
    ∃ header c c', blob.head? = some header ∧ f header c = .ok a c' := by
  rcases Reader.parse_eq_ok.mp h with ⟨c', run⟩
  rcases Step.bind_eq_ok.mp run with ⟨header, c, first, others⟩
  cases blob with
  | nil => cases first
  | cons b rest =>
    cases first
    exact ⟨_, _, c', rfl, others⟩

theorem isField_of_parseField {t : TypeSig} (h : parseField blob = .ok t) : isField blob = true := by
  rcases header_of_parse h with ⟨header, c, c', first, others⟩
  unfold isField
  rw [first]
  by_contra other
  have refused : (header != SignatureHeader.field) = true := by simpa using other
  simp only [refused, if_true] at others
  rcases Step.bind_eq_ok.mp others with ⟨a, c₁, thrown, -⟩
  exact Step.throw_ne_ok thrown

theorem not_isField_of_parseMethod {m : MethodSig} (h : parseMethod blob = .ok m) : isField blob = false := by
  rcases header_of_parse h with ⟨header, c, c', first, others⟩
  unfold isField
  rw [first]
  by_contra field
  have same : header = SignatureHeader.field := by simpa using field
  subst same
  rcases Step.bind_eq_ok.mp others with ⟨a, c₁, thrown, -⟩
  exact Step.throw_ne_ok thrown

/-- Two signatures of fields, or two of methods, that are the same but for their tokens. -/
inductive Alike (R : Token → Token → Prop) (blob blob' : Bytes) : Prop
  | field {t t'} : parseField blob = .ok t → parseField blob' = .ok t' → t.Alike R t' → Alike R blob blob'
  | method {m m'} : parseMethod blob = .ok m → parseMethod blob' = .ok m' → m.Alike R m' → Alike R blob blob'

end Signature

namespace Module

variable {l r : Module}

theorem carries_signatureName {s t : Token} (same : l.typeName? s = r.typeName? t) :
    Carries (l.signatureName s) (r.signatureName t) := by
  intro name h
  unfold signatureName at h ⊢
  rw [← same]
  split at h
  · exact h
  · cases h

/-- Signatures that are the same but for tokens of types with the same names have the same kind and text. -/
theorem memberSignature_alike {blob blob' : Bytes}
    (alike : Signature.Alike (fun s t => l.typeName? s = r.typeName? t) blob blob') :
    Carries (l.memberSignature blob) (r.memberSignature blob') := by
  have names (s t : Token) (same : l.typeName? s = r.typeName? t) := carries_signatureName same
  unfold memberSignature
  cases alike with
  | field left right alike =>
    rw [if_pos (Signature.isField_of_parseField left), if_pos (Signature.isField_of_parseField right), left, right,
      ok_bind, ok_bind]
    exact .bind (TypeSig.render_alike names alike) fun _ => .pure _
  | method left right alike =>
    simp only [Signature.not_isField_of_parseMethod left, Signature.not_isField_of_parseMethod right, left, right,
      ok_bind]
    exact .bind (MethodSig.render_alike names alike) fun _ => .pure _

/-! References -/

/-- The reference is to a member of a type that stands in another assembly by itself. -/
structure Imports (m : Module) (member : MemberRef) (type : TypeRef) (assembly : AssemblyRef) : Prop where
  parent : member.parent.isIn .typeRef = true
  typeRow : rowOf? m.typeRefs member.parent.row = some type
  scope : type.scope.isIn .assemblyRef = true
  assemblyRow : rowOf? m.assemblyRefs type.scope.row = some assembly

variable {member : MemberRef} {type : TypeRef} {assembly : AssemblyRef}

theorem memberReference_of_imports (imports : r.Imports member type assembly) {types : List (Option TypeName)}
    (known : r.typeReferences = .ok types) {kind : MemberKind} {signature : String}
    (signed : r.memberSignature member.signature = .ok (kind, signature)) :
    r.memberReference types member =
      .ok (some ⟨⟨assembly.name, type.namespaceName, type.name⟩, member.name, kind, signature⟩) := by
  have stands : r.StandsFor 0 member.parent.row _ := .outside imports.typeRow imports.scope imports.assemblyRow
  have listed := Refers.listed known ⟨0, Nat.zero_le _, stands⟩ (Token.row_lt _)
  have declaring : externalParent? types member = some ⟨assembly.name, type.namespaceName, type.name⟩ := by
    unfold externalParent?
    rw [if_pos imports.parent, listed]
    rfl
  rw [memberReference_eq, declaring]
  dsimp only
  rw [signed]
  rfl

theorem getElem?_of_references {types members : List (Option Symbol)} (h : r.references = .ok (types, members))
    {index : Nat} (own : r.memberRefs[index]? = some member) : ∃ names member?, r.typeReferences = .ok names ∧
      r.memberReference names member = .ok member? ∧ members[index]? = some (member?.map .member) := by
  unfold references at h
  obtain ⟨names, known, h⟩ := bind_eq_ok.mp h
  obtain ⟨found, listed, last⟩ := bind_eq_ok.mp h
  cases pure_eq_ok.mp last
  have related := rowOf?_of_forall₂ (mapM_eq_ok.mp listed) (index + 1)
  change Option.Rel _ r.memberRefs[index]? found[index]? at related
  rw [own] at related
  rw [List.getElem?_map]
  generalize found[index]? = member?? at related ⊢
  cases related with
  | some answered => exact ⟨names, _, known, answered, rfl⟩

end Module

namespace Catalog

variable {l r : Module} {c : Catalog} {identity : AssemblyIdentity} {t : TypeDef} {name : String} {blob : Bytes}
  {member : MemberRef} {type : TypeRef} {assembly : AssemblyRef} {index : Nat}

theorem find?_of_member {run : List Addition} {m wanted : MemberName} (added : .member m ∈ run) (same : m.key = wanted.key) :
    ∃ found, (ofRun run).find? (.member wanted) = some (.member found) ∧ found.key = wanted.key := by
  rw [find?_member, member_ofRun]
  have present : ((Addition.members run).find? (·.key == wanted.key)).isSome = true := by
    rw [List.find?_isSome]
    exact ⟨m, Addition.mem_members.mpr added, by simpa using same⟩
  obtain ⟨first, found⟩ := Option.isSome_iff_exists.mp present
  refine ⟨first.canonical, by rw [found]; rfl, ?_⟩
  rw [MemberName.key_canonical]
  simpa using List.find?_some found

/-- What a module refers to in an assembly is found in the catalog of the module that defines it, whatever tokens the
two have for types of the same names, and by whatever name of the assembly. -/
theorem ofModule_answers_imports (named : l.assembly? = some identity) (made : ofModule l = .ok c) (defined : t ∈ l.types)
    (listed : t.name ≠ moduleTypeName) (signed : (name, blob) ∈ t.signed) (reference : r.memberRefs[index]? = some member)
    (imports : r.Imports member type assembly)
    (sameAssembly : AssemblyName.lower assembly.name = AssemblyName.lower identity.name ∨
      (AssemblyName.isCore assembly.name = true ∧ AssemblyName.isCore identity.name = true))
    (sameType : type.namespaceName = t.namespaceName ∧ type.name = t.name) (sameName : member.name = name)
    (alike : Signature.Alike (fun s u => l.typeName? s = r.typeName? u) blob member.signature) :
    ∃ kind signature, l.memberSignature blob = .ok (kind, signature) ∧
      r.memberSignature member.signature = .ok (kind, signature) ∧
      (∀ names, r.typeReferences = .ok names → r.memberReference names member =
        .ok (some ⟨⟨assembly.name, t.namespaceName, t.name⟩, name, kind, signature⟩)) ∧
      (∀ types members, r.references = .ok (types, members) → members[index]? =
        some (some (.member ⟨⟨assembly.name, t.namespaceName, t.name⟩, name, kind, signature⟩))) ∧
      ∃ found, c.find? (.member ⟨⟨assembly.name, t.namespaceName, t.name⟩, name, kind, signature⟩) = some (.member found) ∧
        found.declaring.fullName = t.fullName ∧ found.name = name ∧ found.kind = kind ∧ found.signature = signature := by
  obtain ⟨run, kind, signature, rfl, own, added⟩ := member_of_ofModule made defined listed signed
  have other := Module.memberSignature_alike alike _ own
  have formed (names) (known : r.typeReferences = .ok names) := Module.memberReference_of_imports imports known other
  rw [sameType.1, sameType.2, sameName] at formed
  refine ⟨kind, signature, own, other, formed, fun types members h => ?_, ?_⟩
  · obtain ⟨names, member?, known, answered, place⟩ := Module.getElem?_of_references h reference
    rw [place, ← Except.ok.inj ((formed names known).symm.trans answered)]
    rfl
  · have key : (MemberName.mk (nameIn l t) name kind signature).key =
        (MemberName.mk ⟨assembly.name, t.namespaceName, t.name⟩ name kind signature).key := by
      have assemblies : AssemblyName.key (nameIn l t).assembly = AssemblyName.key assembly.name := by
        unfold nameIn assemblyOf
        rw [AssemblyName.key_canonical, named]
        exact (AssemblyName.key_eq_iff.mpr sameAssembly).symm
      unfold MemberName.key TypeName.key
      rw [assemblies]
      rfl
    obtain ⟨found, answer, same⟩ := find?_of_member added key
    refine ⟨found, answer, ?_⟩
    simp only [MemberName.key, TypeName.key, Prod.mk.injEq, TypeKey.mk.injEq] at same
    exact ⟨same.1.2, same.2⟩

end Catalog

namespace Sample

/-- Bytes of a method whose parameter is a generic instance of one type with another type as the argument. -/
def putBytes (box item : UInt8) : Bytes := [0x20, 1, 0x01, 0x15, 0x12, box, 1, 0x12, item]

def putSignature (box item : Token) : MethodSig :=
  ⟨true, false, 0, 0, .primitive .void, [.generic (.classType box) [.classType item]], []⟩

/-- A core library with a type and one inside of it. -/
def boxes : Module :=
  { name := "boxes.dll"
    assembly? := some ⟨"System.Runtime", ⟨1, 0, 0, 0⟩, 0, 0, [], ""⟩
    types := [{ flags := 0, namespaceName := "Lib", name := "Box", baseType := .null, fields := []
                methods := [{ flags := 0, implFlags := 0, name := "Put", signature := putBytes 4 8, params := [],
                              body? := none }] },
              { flags := 0, namespaceName := "Lib", name := "Box/Item", baseType := .null, fields := [], methods := [] }] }

/-- A module that refers to the method by another name of the core library, and to the inner type first. -/
def boxUser : Module :=
  { name := "user.dll"
    assemblyRefs := [⟨"MSCORLIB", ⟨4, 0, 0, 0⟩, 0, [], "", []⟩]
    typeRefs := [{ scope := .ofRow .typeRef 2, namespaceName := "", name := "Item" },
                 { scope := .ofRow .assemblyRef 1, namespaceName := "Lib", name := "Box" }]
    memberRefs := [{ parent := .ofRow .typeRef 2, name := "Put", signature := putBytes 9 5 }] }

theorem parse_of_any {blob : Bytes} {m : MethodSig} (h : (Signature.parseMethod blob).toOption.any (· == m) = true) :
    Signature.parseMethod blob = .ok m := by
  rcases exists_of_any h with ⟨found, parsed, same⟩
  rw [parsed, eq_of_beq same]

theorem alike_put : Signature.Alike (fun s u => boxes.typeName? s = boxUser.typeName? u) (putBytes 4 8) (putBytes 9 5) := by
  refine .method (@parse_of_any _ (putSignature (.ofRow .typeDef 1) (.ofRow .typeDef 2)) (by decide +kernel))
    (@parse_of_any _ (putSignature (.ofRow .typeRef 2) (.ofRow .typeRef 1)) (by decide +kernel)) ?_
  refine .mk _ _ _ _ (.primitive _) (.cons (.generic (.classType ?_) (.cons (.classType ?_) .nil)) .nil) .nil
  · decide +kernel
  · decide +kernel

end Sample

theorem Catalog.ofModule_answers_imports_sample : ∃ c types members wanted, ofModule Sample.boxes = .ok c ∧
    Sample.boxUser.references = .ok (types, members) ∧ members[0]? = some (some wanted) ∧ wanted.assembly = "MSCORLIB" ∧
      (c.find? wanted).isSome = true := by
  have made : ((ofModule Sample.boxes).toOption.any fun _ => true) = true := by decide +kernel
  rcases exists_of_any made with ⟨c, made, -⟩
  have listed : (Sample.boxUser.references.toOption.any fun _ => true) = true := by decide +kernel
  rcases exists_of_any listed with ⟨⟨types, members⟩, listed, -⟩
  have imports : Sample.boxUser.Imports Sample.boxUser.memberRefs[0] Sample.boxUser.typeRefs[1]
      Sample.boxUser.assemblyRefs[0] := by
    constructor <;> decide +kernel
  rcases ofModule_answers_imports rfl made List.mem_cons_self (by decide) List.mem_cons_self
    (show Sample.boxUser.memberRefs[0]? = some _ from rfl) imports (by decide +kernel) ⟨rfl, rfl⟩ rfl Sample.alike_put
    with ⟨kind, signature, own, other, -, places, found, answer, -⟩
  exact ⟨c, types, members, _, made, listed, places types members listed, rfl, Option.isSome_iff_exists.mpr ⟨_, answer⟩⟩

end CilWeaver
