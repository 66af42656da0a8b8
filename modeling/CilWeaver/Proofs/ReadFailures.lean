import CilWeaver.Module.Emission
import CilWeaver.Module.FromImage
import CilWeaver.Module.Reading
import CilWeaver.Proofs.ReaderFailures

/-!
How reading a module fails: with a defect of its images or with a reference that the look-up does not know. Where an
image cannot be read, or describes no module, the data is at fault. Signatures of members are decoded late, and one that
ends early is not reported as a defect.
-/

namespace CilWeaver

open Step
open Outcome (BlamesData FailsWith)

/-! The parts of an image -/

theorem Run.blamesData_ofStarts (column : ListColumn) (total : Nat) (starts : List Nat) :
    BlamesData (ofStarts column total starts) := by
  have each (row : Nat) : BlamesData (fromRow column total row starts) := by
    induction starts generalizing row with
    | nil => exact .ok _
    | cons start starts ih => exact .ite (.malformed _) (.ite (.malformed _) (.bind (ih _) fun _ => .pure _))
  exact each 1

namespace ModuleImage

theorem blamesData_checkReference (image : ModuleImage) (nullable : Bool) (column : ReferenceColumn) (index : CodedIndex) :
    BlamesData (image.checkReference nullable column index) :=
  .ite (.ite (.ok _) (.malformed _)) (.ite (.ok _) (.malformed _))

theorem blamesData_checkIndices (image : ModuleImage) : BlamesData image.checkIndices :=
  .bind (.forM (fun _ => blamesData_checkReference _ _ _ _) _) fun _ =>
    .bind (.forM (fun _ => blamesData_checkReference _ _ _ _) _) fun _ =>
      .bind (.forM (fun _ => blamesData_checkReference _ _ _ _) _) fun _ =>
        .bind (Run.blamesData_ofStarts _ _ _) fun _ => .bind (Run.blamesData_ofStarts _ _ _) fun _ =>
          .bind (Run.blamesData_ofStarts _ _ _) fun _ => .pure _

theorem blamesData_found (stream? : Option Bytes) (defect : Defect) : BlamesData (match stream? with
    | some stream => .ok stream
    | none => (.error (.malformed defect) : Result Bytes)) := by
  split
  · exact .ok _
  · exact .malformed _

theorem blamesData_parseParts (data : Bytes) : BlamesData (parseParts data) := by
  refine .bind (Root.blamesData_parse data) fun root => ?_
  have required (name : String) := blamesData_found (root.stream? data name) (.missingStream name)
  refine .check (.bind (required _) fun _ => .bind (StringHeap.blamesData_parse _) fun _ => .bind (required _) fun _ =>
    .bind (BlobHeap.blamesData_parse _) fun _ => .bind (required _) fun _ => .bind (GuidHeap.blamesData_parse _) fun _ =>
    .bind (.option_mapM UserStringHeap.blamesData_parse _) fun _ => .bind (.ite (.ok _) (.malformed _)) fun _ =>
    .bind (.option_mapM CodeViewRecord.blamesData_parse _) fun _ => .bind (required _) fun _ =>
    .bind (TableStream.blamesData_parse _ _) fun tables => .bind (tables.blamesData_rows _) fun rows => .bind ?_ fun _ =>
    .bind (tables.blamesData_rows _) fun rows => .bind ?_ fun _ => ?_)
  · unfold singleModule
    split
    · exact .ok _
    · exact .malformed _
  · unfold optionalAssembly
    split
    · exact .ok _
    · exact .ok _
    · exact .malformed _
  · exact .bind (tables.blamesData_rows _) fun _ => .bind (tables.blamesData_rows _) fun _ =>
      .bind (tables.blamesData_rows _) fun _ => .bind (tables.blamesData_rows _) fun _ =>
      .bind (tables.blamesData_rows _) fun _ => .bind (tables.blamesData_rows _) fun _ =>
      .bind (tables.blamesData_rows _) fun _ => .bind (tables.blamesData_rows _) fun _ => .pure _

theorem blamesData_parse (data : Bytes) : BlamesData (ModuleImage.parse data) :=
  .bind (blamesData_parseParts data) fun image => .bind image.blamesData_checkIndices fun _ => .pure image

theorem blamesData_literal (image : ModuleImage) (index : Nat) : BlamesData (image.literal index) := by
  unfold literal
  split
  · exact .malformed _
  · split
    · exact .ok _
    · exact .malformed _

end ModuleImage

namespace SymbolImage

theorem blamesData_parse (id : ImageId) (methodCount : Nat) (data : Bytes) :
    BlamesData (SymbolImage.parse id methodCount data) := by
  refine .bind (Root.blamesData_parse data) fun root => ?_
  have stream (name : String) := ModuleImage.blamesData_found (root.stream? data name) (.missingSymbolStream name)
  have count (pdb : PdbStream) : BlamesData (checkMethodCount pdb methodCount) := by
    unfold checkMethodCount
    split
    · exact .ite (.ok _) (.malformed _)
    · exact .ite (.ok _) (.malformed _)
  refine .bind (stream _) fun _ => .bind (PdbStream.blamesData_parse _) fun pdb => .check (.bind (count pdb) fun _ =>
    .bind (stream _) fun _ => .bind (BlobHeap.blamesData_parse _) fun blobs => .bind (stream _) fun _ =>
    .bind (GuidHeap.blamesData_parse _) fun guids => .bind (stream _) fun _ => .bind (TableStream.blamesData_parse _ _)
    fun tables => .bind (tables.blamesData_rows _) fun _ => .bind (.mapM (fun row => ?_) _) fun _ =>
    .bind (tables.blamesData_rows _) fun _ => .check (.bind (.mapM (fun row => ?_) _) fun _ => .pure _))
  · exact .bind (blobs.blamesData_get _) fun _ => .bind (DocumentName.blamesData_parse _ _) fun _ =>
      .bind (guids.blamesData_get _) fun _ => .bind (blobs.blamesData_get _) fun _ => .bind (guids.blamesData_get _) fun _ =>
      .pure _
  · exact .bind (blobs.blamesData_get _) fun _ => .pure _

theorem blamesData_checkDocument (symbols : SymbolImage) (method : String) (document : Nat) :
    BlamesData (symbols.checkDocument method document) := .ite (.malformed _) (.ok _)

theorem blamesData_place (symbols : SymbolImage) (decoded : DecodedBody) (method : String) (p : SequencePoint) :
    BlamesData (symbols.place decoded method p) := by
  refine .bind (symbols.blamesData_checkDocument _ _) fun _ => ?_
  split
  · exact .ok _
  · exact .malformed _

theorem blamesData_bodySymbols (symbols : SymbolImage) (position : Nat) (decoded? : Option DecodedBody) (method : String) :
    BlamesData (symbols.bodySymbols position decoded? method) := by
  unfold bodySymbols
  split
  · exact .ok _
  · refine .ite (.ok _) ?_
    split
    · exact .malformed _
    · refine .ite (.bind (symbols.blamesData_checkDocument _ _) fun _ => ?_) ?_
      all_goals
        refine .bind (SequencePoints.blamesData_parse _ _) fun _ => ?_
        exact .bind (.mapM (symbols.blamesData_place _ _) _) fun _ => .pure _

end SymbolImage

/-! The module of the images -/

theorem Region.blamesData_ofClause (contains : Token → Bool) (decoded : DecodedBody) (method : String) (c : Clause) :
    BlamesData (ofClause contains decoded method c) := by
  have start (offset : UInt32) : BlamesData (startOf decoded method offset) := by
    unfold startOf
    split
    · exact .ok _
    · exact .malformed _
  have stop (offset length : UInt32) : BlamesData (endOf decoded method offset length) := by
    unfold endOf
    split
    · exact .ok _
    · exact .malformed _
  have kind : BlamesData (kindOf contains decoded method c) := by
    unfold kindOf
    split
    · exact .ite (.ok _) (.malformed _)
    · exact .bind (start _) fun _ => .pure _
    · exact .ok _
    · exact .ok _
    · exact .malformed _
  exact .bind kind fun _ => .bind (start _) fun _ => .bind (stop _ _) fun _ => .bind (start _) fun _ =>
    .bind (stop _ _) fun _ => .pure _

namespace ModuleImage

variable (image : ModuleImage)

theorem blamesData_string (index : Nat) : BlamesData (image.string index) := image.strings.blamesData_get index

theorem blamesData_blob (index : Nat) : BlamesData (image.blob index) := image.blobs.blamesData_get index

theorem blamesData_locals (method : String) (token : Token) : BlamesData (image.locals method token) := by
  unfold locals
  refine .ite (.ok _) ?_
  split
  · exact .malformed _
  · exact .bind (image.blamesData_blob _) Signature.blamesData_parseLocals

theorem blamesData_inMethod {α : Type} (method : String) {x : Result α} (blames : BlamesData x) :
    BlamesData (inMethod method x) := by
  unfold inMethod
  split
  · exact .malformed _
  · exact blames

theorem blamesData_body (maxBodySize : Nat) (method : String) (address : UInt32) :
    BlamesData (image.body maxBodySize method address) := by
  refine .check (.bind (StoredBody.blamesData_parse _) fun raw => .check (.bind (blamesData_inMethod _
    (Code.blamesData_decode image.blamesData_literal _)) fun decoded => .bind (.forM (fun operand => ?_) _) fun _ =>
    .bind (image.blamesData_locals _ _) fun _ => .bind (.mapM (Region.blamesData_ofClause _ _ _) _) fun _ => .pure _))
  obtain ⟨i, offset⟩ := operand
  dsimp only
  split
  · exact .ok _
  · exact .ite (.ok _) (.malformed _)

theorem blamesData_bodyWithSymbols (symbols? : Option SymbolImage) (maxBodySize position : Nat) (method : String)
    (address : UInt32) : BlamesData (image.bodyWithSymbols symbols? maxBodySize position method address) := by
  refine .ite (.bind (.pure _) fun _ => ?_) (.bind (.map (image.blamesData_body _ _ _) some) fun _ => ?_)
  all_goals
    split
    · exact .bind (.pure _) fun _ => .pure _
    · exact .bind (SymbolImage.blamesData_bodySymbols _ _ _ _) fun _ => .pure _

theorem blamesData_methodDef (symbols? : Option SymbolImage) (maxBodySize : Nat) (owner : TypeDef) (position : Nat)
    (row : MethodDefRow) (params : Run) :
    BlamesData (image.methodDef symbols? maxBodySize owner position row params) :=
  .bind (image.blamesData_string _) fun _ => .bind (.mapM (fun _ => .bind (image.blamesData_string _) fun _ => .pure _) _)
    fun _ => .bind (image.blamesData_bodyWithSymbols _ _ _ _ _) fun _ => .bind (image.blamesData_blob _) fun _ => .pure _

theorem blamesData_typeDef (symbols? : Option SymbolImage) (maxBodySize : Nat) (paramRuns : List Run) (row : TypeDefRow)
    (fields methods : Run) : BlamesData (image.typeDef symbols? maxBodySize paramRuns row fields methods) :=
  .bind (image.blamesData_string _) fun _ => .bind (image.blamesData_string _) fun _ =>
    .bind (.mapM (fun _ => .bind (image.blamesData_string _) fun _ => .bind (image.blamesData_blob _) fun _ => .pure _) _)
    fun _ => .bind (.mapM (fun _ => image.blamesData_methodDef _ _ _ _ _ _) _) fun _ => .pure _

theorem blamesData_module (symbols? : Option SymbolImage) (maxBodySize : Nat) :
    BlamesData (image.module symbols? maxBodySize) :=
  .bind (image.blamesData_string _) fun _ => .bind (image.guids.blamesData_get _) fun _ =>
    .bind (.option_mapM (fun _ => .bind (image.blamesData_string _) fun _ => .bind (image.blamesData_blob _) fun _ =>
      .bind (image.blamesData_string _) fun _ => .pure _) _) fun _ =>
    .bind (.mapM (fun _ => .bind (image.blamesData_string _) fun _ => .bind (image.blamesData_blob _) fun _ =>
      .bind (image.blamesData_string _) fun _ => .bind (image.blamesData_blob _) fun _ => .pure _) _) fun _ =>
    .bind (.mapM (fun _ => .bind (image.blamesData_string _) fun _ => .bind (image.blamesData_string _) fun _ => .pure _) _)
    fun _ =>
    .bind (.mapM (fun _ => .bind (image.blamesData_string _) fun _ => .bind (image.blamesData_blob _) fun _ => .pure _) _)
    fun _ =>
    .bind (.mapM (fun _ => image.blamesData_blob _) _) fun _ => .bind (Run.blamesData_ofStarts _ _ _) fun _ =>
    .bind (Run.blamesData_ofStarts _ _ _) fun _ => .bind (Run.blamesData_ofStarts _ _ _) fun _ =>
    .bind (.mapM (fun _ => image.blamesData_typeDef _ _ _ _ _ _) _) fun _ => .pure _

end ModuleImage

namespace Module

theorem blamesData_ofImages (name : String) (maxBodySize : Nat) (code : Bytes) (symbols? : Option Bytes) :
    BlamesData (ofImages name maxBodySize code symbols?) := by
  refine .bind (ModuleImage.blamesData_parse code) fun image => ?_
  split
  · exact image.blamesData_module _ _
  · rename_i data
    have symbols : BlamesData (symbolsOf name image data) := by
      unfold symbolsOf
      split
      · exact .malformed _
      · exact .bind (SymbolImage.blamesData_parse _ _ _) fun _ => .pure _
    exact .bind symbols fun _ => .bind (image.blamesData_module _ _) fun _ => .bind (.ite (.ok _) (.malformed _)) fun _ =>
      .pure _

end Module

/-! References to other assemblies -/

/-- The failure names a defect of the data. -/
def Error.NamesDefect (e : Error) : Prop := ∃ defect, e = .malformed defect

namespace TypeSig

variable {ε : Type} {name : Token → Except ε String} {p : ε → Prop}

mutual

/-- A text of a type is only missing for want of a name. -/
theorem failsWith_render (names : ∀ type, FailsWith p (name type)) : ∀ t : TypeSig, FailsWith p (t.render name)
  | .primitive _ => .ok _
  | .pointer base => .bind (failsWith_render names base) fun _ => .pure _
  | .byReference base => .bind (failsWith_render names base) fun _ => .pure _
  | .pinned base => .bind (failsWith_render names base) fun _ => .pure _
  | .vector element => .bind (failsWith_render names element) fun _ => .pure _
  | .array element _ => .bind (failsWith_render names element) fun _ => .pure _
  | .classType type => names type
  | .valueType type => names type
  | .generic base arguments =>
    .bind (failsWith_renderAll names arguments) fun _ => .bind (failsWith_render names base) fun _ => .pure _
  | .typeParameter _ => .ok _
  | .methodParameter _ => .ok _
  | .function method => .bind (failsWith_renderMethod names method) fun _ => .pure _
  | .modified _ modifier base => .bind (failsWith_render names base) fun _ => .bind (names modifier) fun _ => .pure _

theorem failsWith_renderMethod (names : ∀ type, FailsWith p (name type)) : ∀ m : MethodSig, FailsWith p (m.render name)
  | ⟨_, _, _, _, returns, parameters, _⟩ =>
    .bind (failsWith_render names returns) fun _ => .bind (failsWith_renderAll names parameters) fun _ => .pure _

theorem failsWith_renderAll (names : ∀ type, FailsWith p (name type)) :
    ∀ ts : List TypeSig, FailsWith p (TypeSig.renderAll name ts)
  | [] => .ok _
  | t :: ts => .bind (failsWith_render names t) fun _ => .bind (failsWith_renderAll names ts) fun _ => .pure _

end

end TypeSig

/-- The bytes end inside the signature that they start. -/
def Signature.EndsEarly (blob : Bytes) : Prop :=
  if isField blob then parseField blob = .error .outOfBounds else parseMethod blob = .error .outOfBounds

namespace Module

variable (m : Module)

theorem namesDefect_signatureName (type : Token) : FailsWith Error.NamesDefect (m.signatureName type) := by
  unfold signatureName
  split
  · exact .ok _
  · exact .error ⟨_, rfl⟩

/-- A signature that can be read fails for want of a name only. -/
theorem memberSignature_eq_outOfBounds {blob : Bytes} :
    m.memberSignature blob = .error .outOfBounds ↔ Signature.EndsEarly blob := by
  have named {x : Result String} {kind : MemberKind} (fails : FailsWith Error.NamesDefect x) :
      (x >>= fun text => pure (kind, text)) ≠ .error .outOfBounds := by
    intro h
    obtain ⟨defect, same⟩ := (FailsWith.bind fails fun text => .pure (kind, text)) _ h
    cases same
  unfold memberSignature Signature.EndsEarly
  split
  · cases parsed : Signature.parseField blob with
    | error e => exact ⟨fun h => (by cases h; rfl), fun h => (by cases h; rfl)⟩
    | ok t =>
      constructor
      · intro h
        exact absurd h (named (TypeSig.failsWith_render m.namesDefect_signatureName t))
      · intro h
        cases h
  · cases parsed : Signature.parseMethod blob with
    | error e => exact ⟨fun h => (by cases h; rfl), fun h => (by cases h; rfl)⟩
    | ok t =>
      constructor
      · intro h
        exact absurd h (named (TypeSig.failsWith_renderMethod m.namesDefect_signatureName t))
      · intro h
        cases h

theorem blamesData_memberSignature (blob : Bytes) : BlamesData (m.memberSignature blob) := by
  have name (type : Token) : BlamesData (m.signatureName type) := by
    unfold signatureName
    split
    · exact .ok _
    · exact .malformed _
  refine .ite (.bind (Signature.blamesData_parseField blob) fun t => .bind ?_ fun _ => .pure _)
    (.bind (Signature.blamesData_parseMethod blob) fun t => .bind ?_ fun _ => .pure _)
  · exact TypeSig.failsWith_render name t
  · exact TypeSig.failsWith_renderMethod name t

theorem namesDefect_typeReferenceWithin (token : Token) (names : List String) (fuel : Nat) (current : Token) :
    FailsWith Error.NamesDefect (m.typeReferenceWithin token names fuel current) := by
  induction fuel generalizing names current with
  | zero => exact .error ⟨_, rfl⟩
  | succ fuel ih =>
    unfold typeReferenceWithin
    split
    · exact .error ⟨_, rfl⟩
    · exact .ite (ih _ _) (.ite (.ok _) (.ite (.ok _) (.error ⟨_, rfl⟩)))

theorem namesDefect_typeReferences : FailsWith Error.NamesDefect m.typeReferences :=
  .mapM (fun _ => m.namesDefect_typeReferenceWithin _ _ _ _) _

/-- The type of another assembly whose member is referred to. -/
def externalParent? (types : List (Option TypeName)) (r : MemberRef) : Option TypeName :=
  if r.parent.isIn .typeRef then (rowOf? types r.parent.row).join else none

/-- The first reference that cannot be named is to a member of another assembly, and its signature ends early. -/
def HasCutSignature : Prop :=
  ∃ types earlier r later, m.typeReferences = .ok types ∧ m.memberRefs = earlier ++ r :: later ∧
    (∀ other ∈ earlier, ∃ member?, m.memberReference types other = .ok member?) ∧
    (externalParent? types r).isSome = true ∧ Signature.EndsEarly r.signature

theorem memberReference_eq (types : List (Option TypeName)) (r : MemberRef) :
    m.memberReference types r = match externalParent? types r with
      | none => return none
      | some declaring => do
        let (kind, signature) ← m.memberSignature r.signature
        return some ⟨declaring, r.name, kind, signature⟩ := rfl

theorem memberReference_eq_outOfBounds {types : List (Option TypeName)} {r : MemberRef} :
    m.memberReference types r = .error .outOfBounds ↔
      (externalParent? types r).isSome = true ∧ Signature.EndsEarly r.signature := by
  rw [memberReference_eq]
  cases externalParent? types r with
  | none =>
    constructor
    · intro h
      cases h
    · rintro ⟨h, -⟩
      cases h
  | some declaring =>
    rw [← m.memberSignature_eq_outOfBounds]
    change (m.memberSignature r.signature >>= fun found =>
      pure (some (⟨declaring, r.name, found.1, found.2⟩ : MemberName))) = _ ↔ _
    rw [Outcome.bind_pure_eq_error]
    exact ⟨fun failed => ⟨rfl, failed⟩, fun cut => cut.2⟩

theorem references_eq_outOfBounds : m.references = .error .outOfBounds ↔ m.HasCutSignature := by
  unfold references HasCutSignature
  cases named : m.typeReferences with
  | error e =>
    constructor
    · intro h
      cases h
      obtain ⟨defect, same⟩ := m.namesDefect_typeReferences _ named
      cases same
    · rintro ⟨types, earlier, r, later, h, -⟩
      cases h
  | ok types =>
    rw [Outcome.ok_bind, Outcome.bind_pure_eq_error, Outcome.mapM_eq_error]
    constructor
    · rintro ⟨earlier, r, later, same, before, failed⟩
      exact ⟨types, earlier, r, later, rfl, same, before, m.memberReference_eq_outOfBounds.mp failed⟩
    · rintro ⟨types', earlier, r, later, h, same, before, cut⟩
      cases h
      exact ⟨earlier, r, later, same, before, m.memberReference_eq_outOfBounds.mpr cut⟩

theorem blamesData_references : BlamesData m.references := by
  refine .bind (.mapM (fun i => ?_) _) fun types => .bind (.mapM (fun r => ?_) _) fun members => .pure _
  · intro e failed
    obtain ⟨defect, rfl⟩ := m.namesDefect_typeReferenceWithin _ _ _ _ e failed
    rfl
  · unfold memberReference
    dsimp only
    split
    · exact .pure _
    · exact .bind (m.blamesData_memberSignature _) fun _ => .pure _

theorem namesDefect_of_isMalformed {e : Error} (fault : e.isMalformed = true) (inside : e ≠ .outOfBounds) : e.NamesDefect := by
  cases e with
  | malformed defect => exact ⟨defect, rfl⟩
  | outOfBounds => exact absurd rfl inside
  | _ => cases fault

variable {σ : Type} {lookup : Lookup σ}

theorem resolveAll_eq_error {references : List (Option Symbol)} {e : Error} {s s' : σ}
    (h : resolveAll lookup references s = .error e s') : ∃ symbol cause, e = .unresolved symbol cause := by
  unfold resolveAll at h
  induction references generalizing s with
  | nil =>
    rw [List.mapM_nil] at h
    cases h
  | cons reference? references ih =>
    rw [List.mapM_cons, bind_apply] at h
    split at h
    · rename_i first? middle first
      rw [bind_apply] at h
      split at h
      · cases h
      · rename_i failed
        cases h
        exact ih failed
    · rename_i fault middle failed
      cases h
      cases reference? with
      | none => cases failed
      | some reference =>
        change (some <$> resolveOne lookup reference) s = _ at failed
        rw [map_apply] at failed
        unfold resolveOne at failed
        cases found : lookup reference s with
        | ok definition middle =>
          rw [found] at failed
          cases failed
        | error cause middle =>
          rw [found] at failed
          cases failed
          exact ⟨_, _, rfl⟩

/-- Resolving fails over a name that is missing, or over the answer of the look-up. -/
theorem resolve_eq_error {e : Error} {s s' : σ} (h : m.resolve lookup s = .error e s') :
    m.references = .error e ∧ s' = s ∨ ∃ symbol cause, e = .unresolved symbol cause := by
  unfold resolve at h
  cases named : m.references with
  | error fault =>
    rw [named] at h
    cases h
    exact .inl ⟨rfl, rfl⟩
  | ok found =>
    obtain ⟨types, members⟩ := found
    rw [named] at h
    dsimp only at h
    rw [bind_apply] at h
    split at h
    · rw [bind_apply] at h
      split at h
      · cases h
      · rename_i failed
        cases h
        exact .inr (resolveAll_eq_error failed)
    · rename_i failed
      cases h
      exact .inr (resolveAll_eq_error failed)

theorem namesDefect_asMalformed {α : Type} {x : Result α} (blames : BlamesData x) :
    FailsWith Error.NamesDefect (x.mapError asMalformed) := by
  intro e failed
  cases x with
  | ok a => cases failed
  | error fault =>
    cases failed
    have known := blames fault rfl
    cases fault with
    | malformed defect => exact ⟨defect, rfl⟩
    | outOfBounds => exact ⟨.truncated, rfl⟩
    | _ => cases known

/-- Reading fails with a defect of the images, or with a reference that the look-up does not know. There is one
    more case: the signature of a member of another assembly ends early. -/
theorem read_failures (lookup : Lookup σ) (options : ReadOptions) (name : String) (code : Bytes)
    (symbols? : Option Bytes) (s : σ) :
    (∀ e s', read lookup options name code symbols? s = .error e s' →
      e.NamesDefect ∨ (∃ symbol cause, e = .unresolved symbol cause) ∨ e = .outOfBounds) ∧
    ∀ s', read lookup options name code symbols? s = .error .outOfBounds s' ↔
      s' = s ∧ (options.symbolsRequired = true → symbols?.isSome = true) ∧
        ∃ m, ofImages name options.maxBodySize code symbols? = .ok m ∧ m.HasCutSignature := by
  have loads := namesDefect_asMalformed (blamesData_ofImages name options.maxBodySize code symbols?)
  unfold read
  by_cases missing : (symbols?.isNone && options.symbolsRequired) = true
  · rw [if_pos missing]
    constructor
    · intro e s' h
      cases h
      exact .inl ⟨_, rfl⟩
    · intro s'
      constructor
      · intro h
        cases h
      · rintro ⟨-, given, -⟩
        rw [Bool.and_eq_true] at missing
        have some := given missing.2
        rw [Option.isNone_iff_eq_none.mp missing.1] at some
        cases some
  · have given : options.symbolsRequired = true → symbols?.isSome = true := by
      intro required
      rw [required, Bool.and_true] at missing
      rw [Option.isSome_iff_ne_none]
      exact fun none => missing (Option.isNone_iff_eq_none.mpr none)
    rw [if_neg missing]
    cases loaded : ofImages name options.maxBodySize code symbols? with
    | error e =>
      rw [loaded] at loads
      obtain ⟨defect, same⟩ := loads _ rfl
      constructor
      · intro e' s' h
        cases h
        exact .inl ⟨defect, same⟩
      · intro s'
        constructor
        · intro h
          injection h with early
          cases early.symm.trans same
        · rintro ⟨-, -, m, h, -⟩
          cases h
    | ok m =>
      change (∀ e s', m.resolve lookup s = .error e s' → _) ∧ ∀ s', m.resolve lookup s = .error .outOfBounds s' ↔ _
      constructor
      · intro e s' h
        rcases m.resolve_eq_error h with ⟨failed, -⟩ | unknown
        · by_cases early : e = .outOfBounds
          · exact .inr (.inr early)
          · exact .inl (namesDefect_of_isMalformed (m.blamesData_references e failed) early)
        · exact .inr (.inl unknown)
      · intro s'
        constructor
        · intro h
          rcases m.resolve_eq_error h with ⟨failed, rfl⟩ | ⟨symbol, cause, same⟩
          · exact ⟨rfl, given, m, rfl, m.references_eq_outOfBounds.mp failed⟩
          · cases same
        · rintro ⟨rfl, -, m', h, cut⟩
          cases h
          unfold resolve
          rw [m.references_eq_outOfBounds.mpr cut]
          rfl

end Module

namespace Sample

/-- A module that refers to a method of another assembly, of whose signature the first byte is left. -/
def cutOff : Module :=
  { name := "a"
    runtimeVersion := "v4"
    assemblyRefs := [⟨"b", ⟨1, 0, 0, 0⟩, 0, [], "", []⟩]
    typeRefs := [{ scope := .ofRow .assemblyRef 1, namespaceName := "", name := "T" }]
    memberRefs := [{ parent := .ofRow .typeRef 1, name := "m", signature := [0] }] }

def cutOffImage : Bytes := (cutOff.emit fun _ => .zero).toOption.elim [] (·.code)

end Sample

theorem Module.read_failures_sample : Module.read (Lookup.ofFunction .ok) { symbolsRequired := false } "a"
    Sample.cutOffImage none () = .error .outOfBounds () ∧
      ∃ m, Module.ofImages "a" defaultMaxBodySize Sample.cutOffImage none = .ok m ∧ m.HasCutSignature := by
  have early : failure? (Module.read (Lookup.ofFunction .ok) { symbolsRequired := false } "a" Sample.cutOffImage none ()) =
      some .outOfBounds := by
    decide +kernel
  have failed := eq_error_of_failure? early
  have cut := ((read_failures (Lookup.ofFunction .ok) { symbolsRequired := false } "a" Sample.cutOffImage none ()).2 ()).mp
    failed
  exact ⟨failed, cut.2.2⟩

/-- A signature that ends early is not reported as a defect of the image. -/
theorem Module.read_runs_out : ∃ e, Module.read (Lookup.ofFunction .ok) { symbolsRequired := false } "a"
    Sample.cutOffImage none () = .error e () ∧ (∀ defect, e ≠ .malformed defect) ∧
      ∀ symbol cause, e ≠ .unresolved symbol cause := by
  have early : failure? (Module.read (Lookup.ofFunction .ok) { symbolsRequired := false } "a" Sample.cutOffImage none ()) =
      some .outOfBounds := by
    decide +kernel
  refine ⟨_, eq_error_of_failure? early, ?_, ?_⟩
  · intro defect same
    cases same
  · intro symbol cause same
    cases same

end CilWeaver
