import CilWeaver.Proofs.Scopes
import CilWeaver.Proofs.StrictModules

/-!
The strict reader of modules. References are followed by their rows less one, chains of scopes until they end, and the
symbols are looked up when all of them are known.
-/

namespace CilWeaver

open Partly (Gives minus narrow)

namespace Module

noncomputable def strictSymbolsOf (name : String) (image : ModuleImage) (data : Bytes) : Partly (SymbolImage × SymbolFile) :=
  match image.codeView? with
  | none => Partly.malformed (.noDebugRecord name)
  | some record => do
    return (← SymbolImage.strictParse record.id image.methods.length data, ⟨record.path, record.age⟩)

noncomputable def strictOfImages (name : String) (maxBodySize : Nat) (code : Bytes) (symbols? : Option Bytes) : Partly Module := do
  let image ← ModuleImage.strictParse code
  match symbols? with
  | none => image.strictModule none maxBodySize
  | some data => do
    let (symbols, file) ← strictSymbolsOf name image data
    let m ← image.strictModule (some symbols) maxBodySize
    Partly.of (image.checkEntryPoint name symbols.entryPoint)
    return { m with
      documents := symbols.documents
      entryPoint := symbols.entryPoint
      symbols? := some file }

variable (m : Module)

/-- The name of a type at the end of a chain of scopes, of which so many were followed. -/
def strictTypeNameAt (depth : Nat) (token : Token) : Option (Option String) :=
  if token.row = 0 ∨ maxNesting < depth then some none
  else match token.table? with
    | some .typeDef => do
      let index ← minus token.row 1
      return m.types[index]?.map TypeDef.fullName
    | some .typeRef => do
      let index ← minus token.row 1
      match m.typeRefs[index]? with
      | none => return none
      | some r =>
        if r.scope.isIn .typeRef then
          let around? ← strictTypeNameAt (depth + 1) r.scope
          return around?.map (· ++ "/" ++ r.name)
        else return some (qualifiedName r.namespaceName r.name)
    | _ => some none
termination_by maxNesting + 1 - depth

def strictSignatureName (type : Token) : Partly String := do
  match ← Partly.need (m.strictTypeNameAt 0 type) with
  | some name => return name
  | none => Partly.malformed (.signatureType type)

def strictMemberSignature (blob : Bytes) : Partly (MemberKind × String) :=
  let name (type : Token) := (m.strictSignatureName type).cases
  if Signature.isField blob then do
    let type ← SignatureReader.strictField.parse blob
    return (.field, ← Partly.ofCases (type.render name))
  else do
    let method ← SignatureReader.strictMethod.parse blob
    return (.method, ← Partly.ofCases (method.render name))

def strictTypeReferenceWithin (token : Token) (names : List String) : (attempts : Nat) → (current : Token) →
    Partly (Option TypeName)
  | 0, _ => Partly.malformed (.scopeTooDeep token maxNesting)
  | attempts + 1, current => do
    let index ← Partly.need (minus current.row 1)
    match m.typeRefs[index]? with
    | none => Partly.malformed (.typeRefMissing current)
    | some r =>
      if r.scope.isIn .typeRef then strictTypeReferenceWithin token (r.name :: names) attempts r.scope
      else if r.scope.isIn .assemblyRef then do
        let place ← Partly.need (minus r.scope.row 1)
        let a ← Partly.need m.assemblyRefs[place]?
        return some ⟨a.name, r.namespaceName, "/".intercalate (r.name :: names)⟩
      else if r.scope.isIn .module then return none
      else Partly.malformed (.scopeUnsupported token r.scope)

/-- The number of a row has as many bits as a token has for it. -/
def strictTypeReferences : Partly (List (Option TypeName)) :=
  (List.range m.typeRefs.length).mapM fun i => do
    let row ← Partly.need (narrow 24 (i + 1 : Nat))
    m.strictTypeReferenceWithin (.ofRow .typeRef row) [] (maxNesting + 1) (.ofRow .typeRef row)

def strictDeclaring (types : List (Option TypeName)) (parent : Token) : Partly (Option TypeName) :=
  if parent.isIn .typeRef then do
    let index ← Partly.need (minus parent.row 1)
    return types[index]?.join
  else return none

def strictMemberReference (types : List (Option TypeName)) (r : MemberRef) : Partly (Option MemberName) := do
  match ← strictDeclaring types r.parent with
  | none => return none
  | some declaring =>
    let (kind, signature) ← m.strictMemberSignature r.signature
    return some ⟨declaring, r.name, kind, signature⟩

def strictReferences : Partly (List (Option Symbol) × List (Option Symbol)) := do
  let types ← m.strictTypeReferences
  let members ← m.memberRefs.mapM (m.strictMemberReference types)
  return (types.map (·.map .type), members.map (·.map .member))

/-- The module of the images and the symbols that are to be looked up. -/
noncomputable def strictPrepare (options : ReadOptions) (name : String) (code : Bytes) (symbols? : Option Bytes) :
    Partly (Module × List (Option Symbol) × List (Option Symbol)) := do
  if symbols?.isNone && options.symbolsRequired then Partly.malformed (.symbolsMissing name)
  let m ← (strictOfImages name options.maxBodySize code symbols?).onResult (·.mapError asMalformed)
  return (m, ← m.strictReferences)

section

variable {σ : Type}

/-- Looks the symbols up, those of types first. -/
def define (lookup : Lookup σ) (symbols : List (Option Symbol) × List (Option Symbol)) : EStateM Error σ Module := do
  let types ← resolveAll lookup symbols.1
  let members ← resolveAll lookup symbols.2
  return m.withDefinitions types members

/-- What reading comes to, if it has a result. -/
noncomputable def strictRead (lookup : Lookup σ) (options : ReadOptions) (name : String) (code : Bytes) (symbols? : Option Bytes)
    (s : σ) : Option (EStateM.Result Error σ Module) :=
  (strictPrepare options name code symbols?).run.map fun
    | .error e => .error e s
    | .ok (m, symbols) => m.define lookup symbols s

end

theorem gives_ofImages (name : String) (maxBodySize : Nat) (code : Bytes) (symbols? : Option Bytes) :
    (strictOfImages name maxBodySize code symbols?).Gives (ofImages name maxBodySize code symbols?) := by
  refine (ModuleImage.gives_parse code).bind fun image parsed => ?_
  have counted : image.layout.rows .standAloneSig = image.signatures.length :=
    ModuleImage.counted_of_parse parsed .standAloneSig
  cases symbols? with
  | none => exact ModuleImage.gives_module counted none maxBodySize
  | some data =>
    have symbols : (strictSymbolsOf name image data).Gives (symbolsOf name image data) := by
      unfold strictSymbolsOf symbolsOf
      cases image.codeView? with
      | none => exact .malformed _
      | some record => exact (SymbolImage.gives_parse _ _ _).bind fun _ _ => .pure _
    exact symbols.bind fun found _ => (ModuleImage.gives_module counted _ maxBodySize).bind fun _ _ =>
      (Gives.of _).bind fun _ _ => .pure _

variable {m}

theorem strictTypeNameAt_eq {fuel depth : Nat} (total : depth + fuel = maxNesting + 1) (token : Token) :
    m.strictTypeNameAt depth token = some (m.typeNameWithin fuel token) := by
  induction fuel generalizing depth token with
  | zero =>
    rw [strictTypeNameAt, if_pos (.inr (by omega))]
    rfl
  | succ fuel ih =>
    rw [strictTypeNameAt, typeNameWithin]
    by_cases zero : token.row = 0
    · rw [if_pos (.inl zero), zero]
      cases token.table? with
      | none => rfl
      | some t => cases t <;> rfl
    · have row := Nat.one_le_iff_ne_zero.mpr zero
      have found {α : Type} (items : List α) : rowOf? items token.row = items[token.row - 1]? :=
        ModuleImage.rowOf?_of_row row
      rw [if_neg (not_or.mpr ⟨zero, by omega⟩), found, found, Partly.minus_of_le row]
      cases token.table? with
      | none => rfl
      | some t =>
        cases t with
        | typeRef =>
          simp only [Option.bind_eq_bind, Option.bind_some]
          cases m.typeRefs[token.row - 1]? with
          | none => rfl
          | some r =>
            simp only [Option.bind_some]
            by_cases nested : r.scope.isIn .typeRef = true
            · rw [if_pos nested, if_pos nested, ih (by omega)]
              cases m.typeNameWithin fuel r.scope <;> rfl
            · rw [if_neg nested, if_neg nested]
              rfl
        | _ => rfl

theorem gives_signatureName (m : Module) (type : Token) : (m.strictSignatureName type).Gives (m.signatureName type) := by
  refine .need (strictTypeNameAt_eq (Nat.zero_add _) type) ?_
  unfold signatureName typeName?
  cases m.typeNameWithin (maxNesting + 1) type with
  | none => exact .malformed _
  | some name => exact .pure _

theorem gives_memberSignature (m : Module) (blob : Bytes) :
    (m.strictMemberSignature blob).Gives (m.memberSignature blob) := by
  have names : (fun type => (m.strictSignatureName type).cases) = fun type => (m.signatureName type).mapError some :=
    funext fun type => (gives_signatureName m type).cases
  unfold strictMemberSignature
  rw [names]
  refine .ite (fun _ => ?_) fun _ => ?_
  · refine (SignatureReader.agrees_field.parse blob).bind fun type _ => ?_
    exact (Gives.ofCases (TypeSig.render_mapError _ _ type)).bind fun _ _ => .pure _
  · refine (SignatureReader.agrees_method.parse blob).bind fun method _ => ?_
    exact (Gives.ofCases (MethodSig.render_mapError _ _ method)).bind fun _ _ => .pure _

/-- The attempts count down, so that cycles of scopes end like long chains. -/
theorem gives_typeReferenceWithin (scopes : ∀ r ∈ m.typeRefs, 1 ≤ r.scope.row)
    (assemblies : ∀ r ∈ m.typeRefs, r.scope.isIn .assemblyRef = true → r.scope.row ≤ m.assemblyRefs.length)
    (token : Token) (names : List String) (attempts : Nat) {current : Token} (row : 1 ≤ current.row) :
    (m.strictTypeReferenceWithin token names attempts current).Gives (m.typeReferenceWithin token names attempts current) := by
  induction attempts generalizing names current with
  | zero => exact .malformed _
  | succ attempts ih =>
    rw [typeReferenceWithin, ModuleImage.rowOf?_of_row row]
    refine .need (Partly.minus_of_le row) ?_
    cases found : m.typeRefs[current.row - 1]? with
    | none => exact .malformed _
    | some r =>
      have member := List.mem_of_getElem? found
      have scope := scopes r member
      refine .ite (fun _ => ih _ scope) fun _ => .ite (fun named => ?_) fun _ => .ite (fun _ => .pure _) fun _ => .malformed _
      have within := assemblies r member named
      have inside : r.scope.row - 1 < m.assemblyRefs.length := by omega
      rw [ModuleImage.rowOf?_of_row scope, List.getElem?_eq_getElem inside]
      exact .need (Partly.minus_of_le scope) (.need (List.getElem?_eq_getElem inside) (.pure _))

namespace Referable

variable (referable : m.Referable)

include referable

theorem gives_typeReferences : m.strictTypeReferences.Gives m.typeReferences := by
  refine Gives.mapM fun i member => ?_
  have listed := List.mem_range.mp member
  have fits : i + 1 < 2 ^ 24 := by
    have count := referable.count
    unfold maxRows at count
    omega
  have row : (Token.ofRow .typeRef (i + 1)).row = i + 1 := by rw [Token.row_ofRow, Nat.mod_eq_of_lt fits]
  have first : 1 ≤ (Token.ofRow .typeRef (i + 1)).row := by rw [row]; exact Nat.le_add_left 1 i
  exact .need (Partly.narrow_of_lt fits) (gives_typeReferenceWithin referable.scopes referable.assemblies _ [] _ first)

theorem gives_memberReference (types : List (Option TypeName)) {r : MemberRef} (member : r ∈ m.memberRefs) :
    (m.strictMemberReference types r).Gives (m.memberReference types r) := by
  have parent := referable.parents r member
  have declaring : (strictDeclaring types r.parent).Gives
      (.ok (if r.parent.isIn .typeRef then (rowOf? types r.parent.row).join else none)) := by
    rw [apply_ite Except.ok]
    refine .ite (fun _ => .need (Partly.minus_of_le parent) ?_) fun _ => .pure _
    rw [ModuleImage.rowOf?_of_row parent]
    exact .pure _
  refine declaring.bind_ok ?_
  unfold memberReference
  dsimp only
  cases (if r.parent.isIn .typeRef then (rowOf? types r.parent.row).join else none) with
  | none => exact .pure _
  | some declaring => exact (gives_memberSignature m r.signature).bind fun _ _ => .pure _

theorem gives_references : m.strictReferences.Gives m.references :=
  referable.gives_typeReferences.bind fun types _ =>
    (Gives.mapM fun _ member => referable.gives_memberReference types member).bind fun _ _ => .pure _

end Referable

theorem gives_prepare (options : ReadOptions) (name : String) (code : Bytes) (symbols? : Option Bytes) :
    (strictPrepare options name code symbols?).Gives (do
      if symbols?.isNone && options.symbolsRequired then (.error (.malformed (.symbolsMissing name)) : Result PUnit)
      let m ← (ofImages name options.maxBodySize code symbols?).mapError asMalformed
      return (m, ← m.references)) := by
  have images := (gives_ofImages name options.maxBodySize code symbols?).onResult (·.mapError asMalformed)
  refine .check fun _ => images.bind fun m read => ?_
  exact (referable_of_ofImages (mapError_eq_ok.mp read)).gives_references.bind fun _ _ => .pure _

/-- Reading always has a result: on all bytes, with symbols or without, no slice, index, difference or conversion is out
    of range, and all loops end. -/
theorem read_has_result {σ : Type} (lookup : Lookup σ) (options : ReadOptions) (name : String) (code : Bytes)
    (symbols? : Option Bytes) (s : σ) :
    strictRead lookup options name code symbols? s = some (read lookup options name code symbols? s) := by
  unfold strictRead read
  rw [show (strictPrepare options name code symbols?).run = some _ from gives_prepare options name code symbols?]
  by_cases refused : (symbols?.isNone && options.symbolsRequired) = true
  · rw [if_pos refused, if_pos refused]
    rfl
  · rw [if_neg refused, if_neg refused]
    cases (ofImages name options.maxBodySize code symbols?).mapError asMalformed with
    | error e => rfl
    | ok m =>
      change _ = some (m.resolve lookup s)
      unfold resolve
      rw [Outcome.ok_bind]
      cases m.references with
      | error e => rfl
      | ok symbols => rfl

end Module

end CilWeaver
