import CilWeaver.Image.ModuleStreams
import CilWeaver.Module.FromImage
import CilWeaver.Proofs.Regions

/-!
Method bodies in the code stream: what writing a body leaves there, and what reading it answers.
-/

namespace CilWeaver

open Code Step

namespace MethodBody

/-- The tokens in a body name rows of the module. -/
structure Named (m : Module) (b : MethodBody) : Prop where
  operands : ∀ i ∈ b.code, ∀ token, i.operand.token? = some token → m.contains token = true
  catches : ∀ r ∈ b.regions, ∀ type, r.kind = .catches type → m.contains type = true
  signature : b.localSignature.isNull = true ∨
    (b.localSignature.isIn .standAloneSig = true ∧ m.contains b.localSignature = true)

theorem tokenCheck_eq_ok {m : Module} {place : TokenPlace} {token : Token} :
    ModuleWriter.tokenCheck m place token = .ok () ↔ m.contains token = true := by
  unfold ModuleWriter.tokenCheck
  split
  · rename_i contained
    exact ⟨fun _ => contained, fun _ => rfl⟩
  · rename_i dangling
    exact ⟨fun h => (by cases h), fun contained => absurd contained dangling⟩

/-- The positions in a body are positions of it. -/
structure Placed (documents : Nat) (b : MethodBody) : Prop where
  regions : ∀ r ∈ b.regions, Region.Inside b.code.length r
  points : ∀ symbols, b.symbols? = some symbols →
    checkPoints b.code.length documents none symbols.points = .ok ()

theorem checkIndices_eq_ok {documents : Nat} {b : MethodBody} :
    b.checkIndices documents = .ok () ↔ Placed documents b := by
  unfold checkIndices
  rw [Outcome.bind_eq_ok]
  constructor
  · rintro ⟨⟨⟩, regions, points⟩
    refine ⟨fun r member => ?_, fun symbols shape => ?_⟩
    · obtain ⟨number, bound, rfl⟩ := List.getElem_of_mem member
      exact Region.inside_of_check (Outcome.forM_eq_ok.mp regions (b.regions[number], number) (by
        rw [List.mem_zipIdx_iff_getElem?]
        exact List.getElem?_eq_getElem bound))
    · rw [shape] at points
      exact points
  · rintro ⟨regions, points⟩
    refine ⟨(), Outcome.forM_eq_ok.mpr ?_, ?_⟩
    · rintro ⟨r, number⟩ member
      exact Region.check_of_inside (regions r (List.fst_mem_of_mem_zipIdx member))
    · cases shape : b.symbols? with
      | none => rfl
      | some symbols => exact points symbols shape

theorem bodyTokenCheck_eq_ok {m : Module} {b : MethodBody} :
    ModuleWriter.bodyTokenCheck m b = .ok () ↔ Named m b := by
  unfold ModuleWriter.bodyTokenCheck
  rw [Outcome.bind_eq_ok]
  constructor
  · rintro ⟨⟨⟩, operands, rest⟩
    obtain ⟨⟨⟩, catches, signature⟩ := Outcome.bind_eq_ok.mp rest
    refine ⟨fun i member token shape => ?_, fun r member type shape => ?_, ?_⟩
    · obtain ⟨index, bound, rfl⟩ := List.getElem_of_mem member
      have checked := Outcome.forM_eq_ok.mp operands (b.code[index], index) (by
        rw [List.mem_zipIdx_iff_getElem?]
        exact List.getElem?_eq_getElem bound)
      simp only [shape] at checked
      exact tokenCheck_eq_ok.mp checked
    · have checked := Outcome.forM_eq_ok.mp catches r member
      simp only [shape] at checked
      exact tokenCheck_eq_ok.mp checked
    · split at signature
      · rename_i null
        exact .inl null
      · split at signature
        · cases signature
        · rename_i table
          exact .inr ⟨by simpa using table, tokenCheck_eq_ok.mp signature⟩
  · rintro ⟨operands, catches, signature⟩
    refine ⟨(), Outcome.forM_eq_ok.mpr ?_, Outcome.bind_eq_ok.mpr ⟨(), Outcome.forM_eq_ok.mpr ?_, ?_⟩⟩
    · rintro ⟨i, index⟩ member
      dsimp only
      split
      · rename_i token shape
        exact tokenCheck_eq_ok.mpr (operands i (List.fst_mem_of_mem_zipIdx member) token shape)
      · rfl
    · intro r member
      split
      · rename_i type shape
        exact tokenCheck_eq_ok.mpr (catches r member type shape)
      · rfl
    · split
      · rfl
      · rename_i named
        rcases signature with null | ⟨table, contained⟩
        · exact absurd null named
        · rw [if_neg (by simp [table])]
          exact tokenCheck_eq_ok.mpr contained

end MethodBody

namespace ModuleWriter

/-- A step that leaves the code alone. -/
def KeepsCode {α : Type} (w : ModuleWriter α) : Prop := ∀ d a d', w d = .ok a d' → d'.il = d.il

namespace KeepsCode

variable {α β : Type}

theorem pure (a : α) : KeepsCode (Pure.pure a) := by
  intro d b d' run
  obtain ⟨-, rfl⟩ := pure_eq_ok.mp run
  rfl

theorem bind {x : ModuleWriter α} {f : α → ModuleWriter β} (first : KeepsCode x)
    (second : ∀ a, KeepsCode (f a)) : KeepsCode (x >>= f) := by
  intro d b d'' run
  obtain ⟨a, d', runFirst, runSecond⟩ := bind_eq_ok.mp run
  rw [second a d' b d'' runSecond, first d a d' runFirst]

theorem throw (e : Error) : KeepsCode (MonadExcept.throw e : ModuleWriter α) := by
  intro d b d' run
  exact absurd run throw_ne_ok

theorem addLiteral (text : String) : KeepsCode (ModuleWriter.addLiteral text) := by
  intro d index d' run
  obtain ⟨userStrings, -, rfl⟩ := onPart_eq_ok run
  rfl

theorem mapM {f : α → ModuleWriter β} (each : ∀ a, KeepsCode (f a)) (items : List α) : KeepsCode (items.mapM f) := by
  induction items with
  | nil => exact pure []
  | cons a items ih =>
    rw [List.mapM_cons]
    exact (each a).bind fun b => ih.bind fun bs => pure _

theorem encode (context : String) (code : List Instruction) :
    KeepsCode (Code.encode ModuleWriter.addLiteral context code) := by
  intro d encoded d' run
  obtain ⟨-, indices, found, -, -⟩ := encode_eq_ok.mp run
  exact mapM addLiteral _ d indices d' found

theorem check (context : String) (result : Except EmissionFault Unit) :
    KeepsCode (ModuleWriter.check context result) := by
  unfold ModuleWriter.check
  split
  · exact pure _
  · exact throw _

end KeepsCode

end ModuleWriter

namespace MethodBody

/-- The stored form of the body, whose instructions are encoded as `code`. -/
def raw (b : MethodBody) (code : Bytes) : RawBody :=
  { code, maxStack := b.maxStack, initLocals := b.initLocals, localSignature := b.localSignature,
    clauses := b.regions.map (Region.toClause (offsets (promote b.code)).toArray) }

/-- The body stands at an address of the code. -/
def Stored (b : MethodBody) (address : Nat) (d : ModuleDraft) : Prop :=
  ∃ code bytes, StoresCode (offsets (promote b.code)).toArray 0 (promote b.code) code d ∧
    (b.raw code).encode address = .ok bytes ∧ bytes <+: d.il.drop address

/-- What the checks of a writer say about a body of a module. -/
structure Checked (m : Module) (b : MethodBody) : Prop where
  valid : Valid b.code
  placed : Placed m.documents.length b
  named : Named m b

end MethodBody

namespace ModuleWriter

open Draft

/-- Writing a body puts it behind the code that was there. -/
theorem addBody_ok {m : Module} {context : String} {b : MethodBody} {d d' : ModuleDraft} {found : List Nat}
    (sound : d.Sound) (run : addBody m context b d = .ok found d') :
    d'.Sound ∧ d.Grows d' ∧ ∀ final, d'.Grows final →
      found = offsets (promote b.code) ∧ b.Checked m ∧ b.Stored d.il.length final := by
  unfold addBody at run
  obtain ⟨⟨⟩, d₁, placed, run⟩ := bind_eq_ok.mp run
  obtain ⟨⟨⟩, d₂, named, run⟩ := bind_eq_ok.mp run
  obtain ⟨encoded, d₃, encode, run⟩ := bind_eq_ok.mp run
  obtain ⟨sound₁, grows₁, placed'⟩ := writes_check _ _ d () d₁ sound placed
  obtain ⟨sound₂, grows₂, named'⟩ := writes_check _ _ d₁ () d₂ sound₁ named
  obtain ⟨sound₃, grows₃, stored⟩ := writes_encode context b.code d₂ encoded d₃ sound₂ encode
  have il : d₃.il = d.il := by
    rw [KeepsCode.encode _ _ _ _ _ encode, KeepsCode.check _ _ _ _ _ named, KeepsCode.check _ _ _ _ _ placed]
  have grows : d.Grows d₃ := (grows₁.trans grows₂).trans grows₃
  rw [bind_of_ok (show (get : ModuleWriter ModuleDraft) d₃ = .ok d₃ d₃ from rfl), il] at run
  rw [(stored d₃ (ModuleDraft.Grows.refl d₃)).2.1] at run
  cases written : (b.raw encoded.bytes).encode d.il.length with
  | error defect =>
    rw [MethodBody.raw] at written
    simp only [written] at run
    exact absurd run throw_ne_ok
  | ok bytes =>
    have same := written
    rw [MethodBody.raw] at same
    simp only [same] at run
    cases run
    have growsLast : d₃.Grows { d₃ with il := d.il ++ bytes } :=
      { ModuleDraft.Grows.refl d₃ with il := by rw [il]; exact List.prefix_append _ _ }
    refine ⟨{ sound₃ with il := sound.il.trans (List.prefix_append _ _) }, grows.trans growsLast, ?_⟩
    intro final later
    obtain ⟨valid, -, code⟩ := stored final (growsLast.trans later)
    have checked : b.Checked m :=
      ⟨valid, MethodBody.checkIndices_eq_ok.mp (placed' d₁ (refl _)),
        MethodBody.bodyTokenCheck_eq_ok.mp (named' d₂ (refl _))⟩
    refine ⟨rfl, checked, encoded.bytes, bytes, code, written, ?_⟩
    obtain ⟨tail, whole⟩ := later.il
    rw [← whole, List.append_assoc, List.drop_left]
    exact List.prefix_append _ _

/-- What a method has in the code: its address and layout, or neither. -/
def HasBody (m : Module) (body? : Option MethodBody) (address : UInt32) (offsets? : Option (List Nat))
    (d : ModuleDraft) : Prop :=
  match body? with
  | none => address = 0 ∧ offsets? = none
  | some b => offsets? = some (offsets (promote b.code)) ∧ b.Checked m ∧ b.Stored address.toNat d ∧
      address.toNat % 4 = 0 ∧ ModuleImage.reservedCode ≤ address.toNat

theorem writes_addMethodBody (m : Module) (context : String) (body? : Option MethodBody) :
    Writes (addMethodBody m context body?) fun found d => HasBody m body? found.1 found.2 d := by
  cases body? with
  | none =>
    refine (Writes.pure _).mono ?_
    rintro found d rfl
    exact ⟨rfl, rfl⟩
  | some b =>
    intro d found d' sound run
    simp only [addMethodBody] at run
    rw [bind_of_ok (show (modify fun d : ModuleDraft => { d with il := padTo 4 d.il } : ModuleWriter Unit) d =
      .ok () { d with il := padTo 4 d.il } from rfl)] at run
    have padded : d.Grows { d with il := padTo 4 d.il } :=
      { ModuleDraft.Grows.refl d with il := List.prefix_append _ _ }
    have sound' : ModuleDraft.Sound { d with il := padTo 4 d.il } :=
      { sound with il := sound.il.trans (List.prefix_append _ _) }
    rw [bind_of_ok (show (get : ModuleWriter ModuleDraft) { d with il := padTo 4 d.il } = .ok _ _ from rfl)] at run
    dsimp only at run
    split at run
    · exact absurd run throw_ne_ok
    · rename_i small
      obtain ⟨layout, d₁, added, run⟩ := bind_eq_ok.mp run
      obtain ⟨rfl, rfl⟩ := pure_eq_ok.mp run
      obtain ⟨soundLast, growsLast, holds⟩ := addBody_ok sound' added
      have number : (UInt32.ofNat (padTo 4 d.il).length).toNat = (padTo 4 d.il).length := by
        rw [UInt32.toNat_ofNat', Nat.mod_eq_of_lt (by omega)]
      refine ⟨soundLast, padded.trans growsLast, fun final later => ?_⟩
      obtain ⟨rfl, checked, stored⟩ := holds final later
      refine ⟨rfl, checked, ?_, ?_, ?_⟩
      · rw [number]
        exact stored
      · rw [number]
        exact length_padTo_mod d.il
      · rw [number]
        exact (sound'.il.length_le)

end ModuleWriter

namespace ModuleImage

/-- The image shows what the draft holds, in heaps and code that fit an image. -/
structure Shows (image : ModuleImage) (d : ModuleDraft) : Prop where
  strings : ∀ index text, d.HasString index text → image.string index = .ok text
  literals : Answers image.literal d
  blobs : ∀ index blob, d.HasBlob index blob → image.blob index = .ok blob
  guids : ∀ index guid, d.HasGuid index guid → image.guids.get index = .ok guid
  il : d.il <+: image.il
  small : image.il.length < 2 ^ 32

theorem checkOperands_eq_ok {image : ModuleImage} {method : String} {decoded : DecodedBody}
    (placed : decoded.code.length ≤ decoded.offsets.length) :
    image.checkOperands method decoded = .ok () ↔
      ∀ i ∈ decoded.code, ∀ token, i.operand.token? = some token → image.contains token = true := by
  unfold checkOperands
  rw [Outcome.forM_eq_ok]
  constructor
  · intro all i member token shape
    obtain ⟨index, bound, rfl⟩ := List.getElem_of_mem member
    have place : index < decoded.offsets.length := by omega
    have pair : (decoded.code[index], decoded.offsets[index]) ∈ decoded.code.zip decoded.offsets := by
      rw [← @List.getElem_zip _ _ _ _ index (by rw [List.length_zip]; omega)]
      exact List.getElem_mem _
    have checked := all _ pair
    simp only [shape] at checked
    split at checked
    · rename_i contained
      exact contained
    · cases checked
  · rintro all ⟨i, offset⟩ member
    dsimp only
    split
    · rfl
    · rename_i token shape
      rw [if_pos (all i (List.of_mem_zip member).1 token shape)]

/-- What a reader asks of a body, apart from its locals. -/
structure Accepts (image : ModuleImage) (maxBodySize : Nat) (b : MethodBody) : Prop where
  size : codeSize (promote b.code) ≤ maxBodySize
  reaches : Reaches (promote b.code)
  operands : ∀ i ∈ promote b.code, ∀ token, i.operand.token? = some token → image.contains token = true
  catches : ∀ r ∈ b.regions, Region.Catchable image.contains r

theorem inMethod_eq_ok {α : Type} {method : String} {result : Result α} {a : α} :
    inMethod method result = .ok a ↔ result = .ok a := by
  unfold inMethod
  split
  · exact ⟨fun h => (by cases h), fun h => (by cases h)⟩
  · exact Iff.rfl

/-- Where a stored body stands in an image. -/
theorem located {image : ModuleImage} {d : ModuleDraft} {b : MethodBody} {address : Nat} (shows' : image.Shows d)
    (stored : b.Stored address d) :
    ∃ code bytes more, StoresCode (offsets (promote b.code)).toArray 0 (promote b.code) code d ∧
      (b.raw code).encode address = .ok bytes ∧ address < image.il.length ∧
        image.il.drop address = bytes ++ more ∧ code.length < 2 ^ 32 := by
  obtain ⟨code, bytes, stores, encoded, place⟩ := stored
  obtain ⟨tail, il⟩ := shows'.il
  obtain ⟨more, front⟩ := place
  have header := StoredBody.length_code_lt encoded
  have within : address < d.il.length := by
    by_contra outside
    rw [List.drop_eq_nil_of_le (Nat.le_of_not_lt outside)] at front
    rw [(List.append_eq_nil_iff.mp front).1] at header
    exact absurd header (Nat.not_lt_zero _)
  have data : image.il.drop address = bytes ++ (more ++ tail) := by
    rw [← il, List.drop_append_of_le_length (Nat.le_of_lt within), ← front, List.append_assoc]
  have inside : address < image.il.length := by
    rw [← il, List.length_append]
    omega
  have small : code.length < 2 ^ 32 := by
    have whole := congrArg List.length data
    rw [List.length_drop, List.length_append] at whole
    have := shows'.small
    change code.length < bytes.length at header
    omega
  exact ⟨code, bytes, more ++ tail, stores, encoded, inside, data, small⟩

theorem codeSize_lt_of_stored {image : ModuleImage} {d : ModuleDraft} {b : MethodBody} {address : Nat}
    (shows' : image.Shows d) (stored : b.Stored address d) : codeSize (promote b.code) < 2 ^ 32 := by
  obtain ⟨code, bytes, more, stores, -, -, -, small⟩ := located shows' stored
  rw [← stores.1]
  exact small

/-- Reading a body that was written answers the body with its branches promoted and its locals
    decoded, or fails. -/
theorem body_eq_ok {image : ModuleImage} {d : ModuleDraft} {m : Module} {b : MethodBody} {address : UInt32}
    {maxBodySize : Nat} {method : String} {found : MethodBody × DecodedBody} (shows' : image.Shows d)
    (checked : b.Checked m) (stored : b.Stored address.toNat d) (aligned : address.toNat % 4 = 0)
    (reserved : reservedCode ≤ address.toNat) :
    image.body maxBodySize method address = .ok found ↔
      ∃ types, image.locals method b.localSignature = .ok types ∧ image.Accepts maxBodySize b ∧
        found = ({ b with code := promote b.code, locals := types, symbols? := none },
          ⟨promote b.code, offsets (promote b.code)⟩) := by
  obtain ⟨code, bytes, more, stores, encoded, within, data, small⟩ := located shows' stored
  have inside : ¬ (address.toNat < reservedCode ∨ image.il.length ≤ address.toNat) := by omega
  have kinds : ∀ c ∈ (b.raw code).clauses, c.HasKind := by
    intro c member
    obtain ⟨r, -, rfl⟩ := List.mem_map.mp member
    exact Region.hasKind_toClause _ r
  have parsed := StoredBody.parse_encode aligned kinds encoded more
  have decodes := fun found => @decode_eq_ok _ _ _ _ found (promoteOnce_promote b.code) checked.valid.promote
    stores small shows'.literals
  have length := (widened_promote b.code).length_eq
  have regions := Region.mapM_ofClause (stores.1 ▸ small)
    (fun r member => length ▸ checked.placed.regions r member) image.contains method
  have placed : (promote b.code).length ≤ (offsets (promote b.code)).length := by
    rw [length_offsets]
    exact Nat.le_succ _
  unfold body
  simp only [inside, ↓reduceIte]
  rw [data, parsed, Outcome.ok_bind]
  change (if maxBodySize < code.length then _ else _) = _ ↔ _
  by_cases large : maxBodySize < code.length
  · rw [if_pos large]
    constructor
    · intro h
      cases h
    · rintro ⟨types, -, accepts, -⟩
      have bound := accepts.size
      rw [← stores.1] at bound
      omega
  · rw [if_neg large]
    constructor
    · intro h
      obtain ⟨decoded, decode, h⟩ := Outcome.bind_eq_ok.mp h
      obtain ⟨rfl, reaches⟩ := (decodes decoded).mp (inMethod_eq_ok.mp decode)
      obtain ⟨⟨⟩, operands, h⟩ := Outcome.bind_eq_ok.mp h
      obtain ⟨types, locals, h⟩ := Outcome.bind_eq_ok.mp h
      obtain ⟨results, clauses, h⟩ := Outcome.bind_eq_ok.mp h
      obtain ⟨rfl, catches⟩ := (regions results).mp clauses
      have size := Nat.le_of_not_lt large
      rw [stores.1] at size
      exact ⟨types, locals, ⟨size, reaches, (checkOperands_eq_ok placed).mp operands, catches⟩,
        (Outcome.pure_eq_ok.mp h).symm⟩
    · rintro ⟨types, locals, accepts, rfl⟩
      refine Outcome.bind_eq_ok.mpr ⟨_, inMethod_eq_ok.mpr ((decodes _).mpr ⟨rfl, accepts.reaches⟩),
        Outcome.bind_eq_ok.mpr ⟨(), (checkOperands_eq_ok placed).mpr accepts.operands,
          Outcome.bind_eq_ok.mpr ⟨types, locals,
            Outcome.bind_eq_ok.mpr ⟨b.regions, (regions b.regions).mpr ⟨rfl, accepts.catches⟩, rfl⟩⟩⟩⟩

end ModuleImage

end CilWeaver
