import CilWeaver.Proofs.Attempts
import CilWeaver.Proofs.Bodies
import CilWeaver.Proofs.Failures

/-!
What the parts of a module put into the heaps and the code, and that there is room for it when they are written, unless
a heap or a body is refused.
-/

namespace CilWeaver

open Code Step

inductive HeapItem where
  | text (text : String)
  | literal (text : String)
  | guid (guid : Guid)
  | blob (blob : Bytes)
deriving DecidableEq

namespace HeapItem

def text? : HeapItem → Option String
  | text t => some t
  | _ => none

def literal? : HeapItem → Option String
  | literal t => some t
  | _ => none

def guid? : HeapItem → Option Guid
  | guid g => some g
  | _ => none

def blob? : HeapItem → Option Bytes
  | blob b => some b
  | _ => none

/-- What a heap takes, if there is space left. -/
def Storable : HeapItem → Prop
  | text t => '\x00' ∉ t.toList
  | literal t => 2 * (Utf16.encode t.toList).length + 1 < 2 ^ 29
  | guid _ => True
  | blob b => b.length < 2 ^ 29

def textSpace (items : List HeapItem) : Nat := heapSpace textSize (items.filterMap text?)

def literalSpace (items : List HeapItem) : Nat := heapSpace literalSize (items.filterMap literal?)

def guidCount (items : List HeapItem) : Nat := (items.filterMap guid?).dedup.length

def blobSpace (items : List HeapItem) : Nat := heapSpace blobSize (items.filterMap blob?)

/-- Items that the heaps of one image can take together. The tokens of literals have less than three bytes for an
    index, all others four. -/
structure Fit (items : List HeapItem) : Prop where
  storable : ∀ item ∈ items, item.Storable
  texts : textSpace items ≤ 2 ^ 32
  literals : literalSpace items ≤ 2 ^ 24
  guids : guidCount items < 2 ^ 32
  blobs : blobSpace items ≤ 2 ^ 32

/-- Why the heaps of one image do not take some items, with the defect that tells of it. -/
inductive Overflow (items : List HeapItem) : Defect → Prop
  | nul {text : String} : .text text ∈ items → '\x00' ∈ text.toList → Overflow items (.nulInIdentifier text)
  | literal {text : String} : .literal text ∈ items → 2 ^ 29 ≤ 2 * (Utf16.encode text.toList).length + 1 →
      Overflow items (.compressedTooLarge (2 * (Utf16.encode text.toList).length + 1))
  | blob {blob : Bytes} : .blob blob ∈ items → 2 ^ 29 ≤ blob.length → Overflow items (.compressedTooLarge blob.length)
  | texts : 2 ^ 32 < textSpace items → Overflow items (.heapTooLarge .strings)
  | literals : 2 ^ 24 < literalSpace items → Overflow items (.heapTooLarge .userStrings)
  | blobs : 2 ^ 32 < blobSpace items → Overflow items (.heapTooLarge .blobs)

theorem Fit.not_overflow {items : List HeapItem} (fit : Fit items) (defect : Defect) : ¬ Overflow items defect := by
  intro overflow
  cases overflow with
  | nul member hasNul => exact fit.storable _ member hasNul
  | literal member long => exact Nat.not_le.mpr (fit.storable _ member) long
  | blob member long => exact Nat.not_le.mpr (fit.storable _ member) long
  | texts more => exact Nat.not_le.mpr more fit.texts
  | literals more => exact Nat.not_le.mpr more fit.literals
  | blobs more => exact Nat.not_le.mpr more fit.blobs

end HeapItem

def Instruction.items (i : Instruction) : List HeapItem :=
  match i.operand with
  | .string text => [.literal text]
  | _ => []

theorem Instruction.items_eq (i : Instruction) : i.items = i.operand.literals.map HeapItem.literal := by
  obtain ⟨opcode, operand⟩ := i
  cases operand <;> rfl

def MethodBody.items (b : MethodBody) : List HeapItem := b.code.flatMap Instruction.items

/-- The most bytes that a stored body takes: its header, its instructions, and its clauses behind what fills up the
    instructions. -/
def MethodBody.storedSpace (b : MethodBody) : Nat :=
  RawBody.fatHeaderSize + codeSize (promote b.code) + (3 + (4 + 24 * b.regions.length))

/-- The bytes up to where a body may start count for the body. -/
def MethodBody.space (b : MethodBody) : Nat := 3 + b.storedSpace

def FieldDef.items (f : FieldDef) : List HeapItem := [.text f.name, .blob f.signature]

def ParamDef.items (p : ParamDef) : List HeapItem := [.text p.name]

namespace MethodDef

def items (d : MethodDef) : List HeapItem :=
  d.body?.elim [] MethodBody.items ++ [.text d.name, .blob d.signature] ++ d.params.flatMap ParamDef.items

def space (d : MethodDef) : Nat := d.body?.elim 0 MethodBody.space

end MethodDef

namespace TypeDef

def items (t : TypeDef) : List HeapItem :=
  [.text t.name, .text t.namespaceName] ++ t.fields.flatMap FieldDef.items ++ t.methods.flatMap MethodDef.items

def space (t : TypeDef) : Nat := (t.methods.map MethodDef.space).sum

end TypeDef

def TypeRef.items (r : TypeRef) : List HeapItem := [.text r.name, .text r.namespaceName]

def MemberRef.items (r : MemberRef) : List HeapItem := [.text r.name, .blob r.signature]

def AssemblyIdentity.items (a : AssemblyIdentity) : List HeapItem := [.blob a.publicKey, .text a.name, .text a.culture]

def AssemblyRef.items (a : AssemblyRef) : List HeapItem :=
  [.blob a.key, .text a.name, .text a.culture, .blob a.hash]

namespace Module

/-- What the tables and bodies of a module refer to in the heaps. -/
def items (m : Module) : List HeapItem :=
  [.text m.name, .guid m.mvid] ++ m.typeRefs.flatMap TypeRef.items ++ m.types.flatMap TypeDef.items
    ++ m.memberRefs.flatMap MemberRef.items ++ m.localSignatures.map HeapItem.blob
    ++ m.assembly?.toList.flatMap AssemblyIdentity.items ++ m.assemblyRefs.flatMap AssemblyRef.items

/-- The most bytes of code that the bodies of a module take. -/
def codeSpace (m : Module) : Nat := ModuleImage.reservedCode + (m.types.map TypeDef.space).sum

end Module

namespace ModuleDraft

/-- A draft with nothing but the given items in its heaps, whose code may grow by `room`. -/
structure Room (items : List HeapItem) (limit room : Nat) (d : ModuleDraft) : Prop where
  sound : d.Sound
  strings : d.strings.Within (items.filterMap HeapItem.text?)
  userStrings : d.userStrings.Within (items.filterMap HeapItem.literal?)
  guids : d.guids.Within (items.filterMap HeapItem.guid?)
  blobs : d.blobs.Within (items.filterMap HeapItem.blob?)
  il : d.il.length + room ≤ limit

theorem room_empty (m : Module) (items : List HeapItem) :
    Room items m.codeSpace (m.types.map TypeDef.space).sum {} :=
  ⟨sound_empty, StringHeapBuilder.within_empty _, UserStringHeapBuilder.within_empty _, GuidHeapBuilder.within_empty _,
    BlobHeapBuilder.within_empty _, Nat.le_of_eq rfl⟩

end ModuleDraft

namespace ModuleWriter

open ModuleDraft

variable {items : List HeapItem} {limit : Nat} {reason : Error → Prop}

/-- An action on a part of the draft ends as it does on the part. -/
theorem attempt_onPart {τ α : Type} {p : ModuleDraft → τ} {r : τ → ModuleDraft → ModuleDraft}
    {action : EStateM Error τ α} {d : ModuleDraft} {kept : τ → Prop} {left : ModuleDraft → Prop}
    (ends : Attempt kept reason (action (p d)))
    (holds : ∀ a s, onPart p r action d = .ok a (r s d) → kept s → left (r s d)) :
    Attempt left reason (onPart p r action d) := by
  cases ended : action (p d) with
  | ok a s =>
    have run : onPart p r action d = .ok a (r s d) := by
      unfold onPart
      rw [ended]
    rw [ended] at ends
    rw [run]
    exact holds a s run ends
  | error e s =>
    have run : onPart p r action d = .error e (r s d) := by
      unfold onPart
      rw [ended]
    rw [ended] at ends
    rwa [run]

section

variable (overflows : ∀ {defect}, HeapItem.Overflow items defect → reason (.malformed defect))
include overflows

theorem attempts_addString {text : String} (member : .text text ∈ items) :
    Attempts (Room items limit) reason 0 (addString text) := by
  intro rest d room
  rw [Nat.zero_add] at room
  have added := StringHeapBuilder.add_within room.strings (List.mem_filterMap.mpr ⟨_, member, rfl⟩)
    (fun nul => overflows (.nul member nul)) fun full => overflows (.texts full)
  exact attempt_onPart added fun index strings run within =>
    { room with sound := (writes_addString text d _ _ room.sound run).1, strings := within }

theorem attempts_addLiteral {text : String} (member : .literal text ∈ items) :
    Attempts (Room items limit) reason 0 (addLiteral text) := by
  intro rest d room
  rw [Nat.zero_add] at room
  have added := UserStringHeapBuilder.add_within room.userStrings (List.mem_filterMap.mpr ⟨_, member, rfl⟩)
    (fun long => overflows (.literal member long)) fun full => overflows (.literals full)
  exact attempt_onPart added fun index userStrings run within =>
    { room with sound := (writes_addLiteral text d _ _ room.sound run).1, userStrings := within }

theorem attempts_addBlob {blob : Bytes} (member : .blob blob ∈ items) :
    Attempts (Room items limit) reason 0 (addBlob blob) := by
  intro rest d room
  rw [Nat.zero_add] at room
  have added := BlobHeapBuilder.add_within room.blobs (List.mem_filterMap.mpr ⟨_, member, rfl⟩)
    (fun long => overflows (.blob member long)) fun full => overflows (.blobs full)
  exact attempt_onPart added fun index blobs run within =>
    { room with sound := (writes_addBlob blob d _ _ room.sound run).1, blobs := within }

end

theorem addLiteral_le {text : String} {rest index : Nat} {d d' : ModuleDraft} (room : Room items limit rest d)
    (run : addLiteral text d = .ok index d') : index ≤ UserStringHeapBuilder.maxIndex := by
  obtain ⟨userStrings, added, -⟩ := onPart_eq_ok run
  obtain ⟨-, -, small, -⟩ := UserStringHeapBuilder.add_ok room.sound.userStrings added
  exact small

theorem attempts_addGuid {guid : Guid} (member : .guid guid ∈ items) :
    Attempts (Room items limit) reason 0 (addGuid guid) := by
  intro rest d room
  rw [Nat.zero_add] at room
  have added : Attempt _ reason (GuidHeapBuilder.add guid d.guids) :=
    GuidHeapBuilder.add_within room.guids (List.mem_filterMap.mpr ⟨_, member, rfl⟩)
  exact attempt_onPart added fun index guids run within =>
    { room with sound := (writes_addGuid guid d _ _ room.sound run).1, guids := within }

theorem attempts_check {room : Nat → ModuleDraft → Prop} {context : String} {result : Except EmissionFault Unit}
    (refuses : ∀ fault, result = .error fault → reason (.emission context fault)) :
    Attempts room reason 0 (check context result) := by
  unfold check
  cases result with
  | ok _ => exact .pure ()
  | error fault => exact .throw (refuses fault rfl)

theorem attempts_coded {room : Nat → ModuleDraft → Prop} {kind : CodedKind} {context : String} {token : Token}
    (refuses : ∀ e, CodedIndex.ofToken kind token = .error e →
      reason (.emission context (.unencodableToken token kind))) :
    Attempts room reason 0 (ModuleWriter.coded kind context token) := by
  unfold ModuleWriter.coded
  cases coded : CodedIndex.ofToken kind token with
  | ok index => exact .pure index
  | error e => exact .throw (refuses e coded)

end ModuleWriter

/-! Bodies -/

namespace Code

open ModuleDraft ModuleWriter

variable {items : List HeapItem} {limit : Nat} {context : String} {reason : Error → Prop}

section

variable (overflows : ∀ {defect}, HeapItem.Overflow items defect → reason (.malformed defect))
include overflows

theorem attempts_encodeOperand {operand : Operand} (given : operand.literals.map HeapItem.literal ⊆ items)
    (offsets : Array Nat) (next : Nat) (kind : OperandKind) :
    Attempts (Room items limit) reason 0 (encodeOperand addLiteral context offsets next kind operand) := by
  cases operand with
  | string text =>
    unfold encodeOperand
    have member : HeapItem.literal text ∈ items := given List.mem_cons_self
    refine (attempts_addLiteral overflows member).free_bind_of (fun _ _ _ _ _ room run _ => addLiteral_le room run)
      fun index small => ?_
    have inside : ¬ 0xFFFFFF < index := Nat.not_lt.mpr small
    dsimp only
    rw [if_neg inside]
    exact .pure _
  | _ =>
    unfold encodeOperand
    exact .pure _

/-- Instructions fail only with the literals that they load. -/
theorem attempts_encodeInstructions {code : List Instruction} (given : (literals code).map HeapItem.literal ⊆ items)
    (offsets : Array Nat) (done : List Bytes) (ends : List Nat) :
    Attempts (Room items limit) reason 0 (encodeInstructions addLiteral context offsets done ends code) := by
  induction code generalizing done ends with
  | nil =>
    cases ends <;> exact .pure _
  | cons i code ih =>
    cases ends with
    | nil => exact .pure _
    | cons next ends =>
      have split : literals (i :: code) = i.operand.literals ++ literals code := List.flatMap_cons
      rw [split, List.map_append, List.append_subset] at given
      exact (attempts_encodeOperand overflows given.1 offsets next _).free_bind fun operand => ih given.2 _ ends

theorem attempts_encode {code : List Instruction}
    (refuses : ∀ fault, check code = .error fault → reason (.emission context fault))
    (given : code.flatMap Instruction.items ⊆ items) :
    Attempts (Room items limit) reason 0 (Code.encode addLiteral context code) := by
  have same : code.flatMap Instruction.items = (literals (promote code)).map HeapItem.literal := by
    rw [literals_promote, literals, List.map_flatMap]
    exact List.flatMap_congr fun i _ => i.items_eq
  rw [same] at given
  unfold Code.encode
  cases checked : check code with
  | error fault => exact .throw (refuses fault checked)
  | ok _ => exact (attempts_encodeInstructions overflows given _ [] _).map _

end

theorem length_encode {literal : String → ModuleWriter Nat} {code : List Instruction} {d d' : ModuleDraft}
    {encoded : EncodedBody} (run : Code.encode literal context code d = .ok encoded d') :
    encoded.bytes.length = codeSize (promote code) := by
  obtain ⟨valid, indices, -, -, rfl⟩ := encode_eq_ok.mp run
  exact length_codeBytes valid.promote.wellFormed _ 0 indices

end Code

/-- A body that passes the checks of the writer and has no more clauses than a section holds. -/
structure MethodBody.Writable (m : Module) (b : MethodBody) : Prop where
  checked : b.Checked m
  clauses : 4 + 24 * b.regions.length ≤ 0x00FFFFFF

/-- Why the writer of a module refuses a body, with the fault that tells of it. -/
inductive MethodBody.Refused (m : Module) (b : MethodBody) : EmissionFault → Prop
  | position {fault : EmissionFault} : b.checkIndices m.documents.length = .error fault → Refused m b fault
  | token {fault : EmissionFault} : ModuleWriter.bodyTokenCheck m b = .error fault → Refused m b fault
  | instruction {fault : EmissionFault} : Code.check b.code = .error fault → Refused m b fault
  | clauses : 0x00FFFFFF < 4 + 24 * b.regions.length → Refused m b (.clauses (.tooManyClauses b.regions.length))
  | size : 2 ^ 32 ≤ codeSize (promote b.code) → Refused m b (.clauses .codeTooLarge)
  | address : 2 ^ 32 < m.codeSpace → Refused m b .codeTooLarge

theorem MethodBody.Writable.not_refused {m : Module} {b : MethodBody} (writable : b.Writable m)
    (space : m.codeSpace ≤ 2 ^ 32) (short : codeSize (promote b.code) < 2 ^ 32) (fault : EmissionFault) :
    ¬ b.Refused m fault := by
  intro refused
  cases refused with
  | position failed =>
    rw [checkIndices_eq_ok.mpr writable.checked.placed] at failed
    cases failed
  | token failed =>
    rw [bodyTokenCheck_eq_ok.mpr writable.checked.named] at failed
    cases failed
  | instruction failed =>
    rw [valid_of_check.mpr writable.checked.valid] at failed
    cases failed
  | clauses many => exact Nat.not_le.mpr many writable.clauses
  | size long => exact Nat.not_le.mpr short long
  | address more => exact Nat.not_le.mpr more space

namespace RawBody

theorem clauseSection_fails (clauses : List Clause) :
    Outcome.FailsWith (fun defect => defect = .tooManyClauses clauses.length ∧ 0x00FFFFFF < 4 + 24 * clauses.length)
      (clauseSection clauses) := by
  unfold clauseSection
  dsimp only
  split
  · exact .ok _
  · split
    · rename_i many
      exact .error ⟨rfl, many⟩
    · exact .ok _

/-- A body is refused for the size of its code or the number of its clauses. -/
theorem encode_fails (b : RawBody) (start : Nat) :
    Outcome.FailsWith (fun defect => (defect = .codeTooLarge ∧ 2 ^ 32 ≤ b.code.length) ∨
      (defect = .tooManyClauses b.clauses.length ∧ 0x00FFFFFF < 4 + 24 * b.clauses.length)) (b.encode start) := by
  unfold encode
  split
  · exact .ok _
  · split
    · rename_i long
      exact .error (.inl ⟨rfl, long⟩)
    · dsimp only
      split
      · exact .ok _
      · exact Outcome.FailsWith.bind (fun defect failed => .inr (clauseSection_fails b.clauses defect failed)) fun _ =>
          .pure _

theorem length_encode_le {b : RawBody} {start : Nat} {bytes : Bytes} (h : b.encode start = .ok bytes) :
    bytes.length ≤ fatHeaderSize + b.code.length + (3 + (4 + 24 * b.clauses.length)) := by
  obtain ⟨bytes', written, short⟩ := exists_encode (few_of_encode h) (size_of_encode h) start
  cases h.symm.trans written
  exact short

end RawBody

namespace ModuleWriter

open ModuleDraft

variable {items : List HeapItem} {m : Module} {b : MethodBody} {context : String} {reason : Error → Prop}

theorem attempts_store {limit : Nat} (refuses : ∀ {fault}, b.Refused m fault → reason (.emission context fault))
    {raw : RawBody} (size : raw.code.length = codeSize (promote b.code)) (count : raw.clauses.length = b.regions.length)
    (offsets : List Nat) :
    Attempts (Room items limit) reason b.storedSpace (do
      let d ← get
      match raw.encode d.il.length with
      | .ok bytes =>
        set { d with il := d.il ++ bytes }
        return offsets
      | .error defect => throw (.emission context (.clauses defect)) : ModuleWriter (List Nat)) := by
  intro rest d room
  have enough := room.il
  unfold MethodBody.storedSpace at enough
  rw [bind_of_ok (show (get : ModuleWriter ModuleDraft) d = .ok d d from rfl)]
  cases written : raw.encode d.il.length with
  | ok bytes =>
    have short := RawBody.length_encode_le written
    rw [size, count] at short
    have grown : d.il.length + bytes.length + rest ≤ limit := by omega
    rw [← List.length_append] at grown
    exact { room with
      sound := { room.sound with il := room.sound.il.trans (List.prefix_append _ _) }
      il := grown }
  | error defect =>
    refine refuses ?_
    rcases RawBody.encode_fails raw d.il.length defect written with ⟨rfl, long⟩ | ⟨rfl, many⟩
    · exact .size (size ▸ long)
    · rw [count] at many ⊢
      exact .clauses many

theorem attempts_addBody {limit : Nat}
    (overflows : ∀ {defect}, HeapItem.Overflow items defect → reason (.malformed defect))
    (refuses : ∀ {fault}, b.Refused m fault → reason (.emission context fault)) (given : b.items ⊆ items) :
    Attempts (Room items limit) reason b.storedSpace (addBody m context b) := by
  unfold addBody
  apply (attempts_check fun _ failed => refuses (.position failed)).free_bind
  intro _
  apply (attempts_check fun _ failed => refuses (.token failed)).free_bind
  intro _
  apply (attempts_encode overflows (fun _ failed => refuses (.instruction failed)) given).free_bind_of
    fun _ _ _ _ _ _ run _ => length_encode run
  intro encoded size
  exact attempts_store refuses size (List.length_map _) encoded.offsets

theorem attempts_addMethodBody (overflows : ∀ {defect}, HeapItem.Overflow items defect → reason (.malformed defect))
    {body? : Option MethodBody}
    (refuses : ∀ b, body? = some b → ∀ {fault}, b.Refused m fault → reason (.emission context fault))
    (given : body?.elim [] MethodBody.items ⊆ items) :
    Attempts (Room items m.codeSpace) reason (body?.elim 0 MethodBody.space) (addMethodBody m context body?) := by
  cases body? with
  | none => exact .pure _
  | some b =>
    intro rest d room
    have enough : d.il.length + (b.space + rest) ≤ m.codeSpace := room.il
    have fill : (padTo 4 d.il).length ≤ d.il.length + 3 := by
      rw [length_padTo]
      unfold padding
      omega
    unfold MethodBody.space at enough
    have header : 12 ≤ b.storedSpace := by
      unfold MethodBody.storedSpace
      exact Nat.le_trans (Nat.le_add_right 12 _) (Nat.le_add_right _ _)
    have padded : Room items m.codeSpace (b.storedSpace + rest) { d with il := padTo 4 d.il } :=
      { room with
        sound := { room.sound with il := room.sound.il.trans (List.prefix_append _ _) }
        il := by dsimp only; omega }
    simp only [addMethodBody]
    rw [bind_of_ok (show (modify fun d : ModuleDraft => { d with il := padTo 4 d.il } : ModuleWriter Unit) d =
      .ok () { d with il := padTo 4 d.il } from rfl)]
    rw [bind_of_ok (show (get : ModuleWriter ModuleDraft) { d with il := padTo 4 d.il } = .ok _ _ from rfl)]
    dsimp only
    by_cases far : 2 ^ 32 ≤ (padTo 4 d.il).length
    · rw [if_pos far]
      exact refuses b rfl (.address (by omega))
    · rw [if_neg far]
      exact (attempts_addBody overflows (refuses b rfl) given).map _ rest _ padded

end ModuleWriter

end CilWeaver
