import CilWeaver.Proofs.Contents
import CilWeaver.Proofs.ReadPoints
import CilWeaver.Proofs.ReadReferences
import CilWeaver.Proofs.ReadRows

/-!
What was read can be put into heaps and code again. Names have no zero character, blobs and literals are no longer than
a length can say, and the operands of decoded instructions are those of their operations.
-/

namespace CilWeaver

open Step Reader

namespace Reader.Answers

variable {α : Type} {r : Reader α} {p : α → Prop}

theorem mapError {f : Error → Error} (answers : r.Answers p) : (r.mapError f).Answers p := by
  intro c a c' run
  unfold Reader.mapError at run
  cases own : r c with
  | ok b c'' =>
    simp only [own] at run
    cases run
    exact answers c _ _ own
  | error e c'' =>
    simp only [own] at run
    cases run

theorem ofResult {result : Result α} (answers : Outcome.Answers result p) : (Reader.ofResult result).Answers p := by
  intro c a c' run
  cases result with
  | ok b =>
    obtain ⟨rfl, -⟩ := pure_eq_ok.mp run
    exact answers _ rfl
  | error e => exact absurd run throw_ne_ok

theorem untilEndFrom (each : r.Answers p) {done : List α} (before : ∀ a ∈ done, p a) (fuel : Nat) :
    Answers (Reader.untilEndFrom r done fuel) fun found => ∀ a ∈ found, p a := by
  induction fuel generalizing done with
  | zero => exact .pure fun a member => before a (List.mem_reverse.mp member)
  | succ fuel ih =>
    unfold Reader.untilEndFrom
    exact .bind fun more => .ite (fun _ => .bind_of each fun a first => ih (List.forall_mem_cons.mpr ⟨first, before⟩))
      fun _ => .pure fun a member => before a (List.mem_reverse.mp member)

theorem untilEnd (each : r.Answers p) : Answers (Reader.untilEnd r) fun found => ∀ a ∈ found, p a :=
  fun c found c' run => each.untilEndFrom (fun _ impossible => absurd impossible List.not_mem_nil) _ c found c' run

end Reader.Answers

/-! Heaps -/

namespace Utf16

theorem toNat_ofNat_le (n : Nat) : (Char.ofNat n).toNat ≤ n := by
  by_cases valid : n.isValidChar
  · exact Nat.le_of_eq (Utf8.toNat_of_valid valid)
  · unfold Char.ofNat
    rw [dif_neg valid]
    exact Nat.zero_le n

theorem length_encodeChar_le (c : Char) : (encodeChar c).length ≤ 2 := by
  unfold encodeChar
  split
  · exact Nat.le_succ 1
  · exact Nat.le_refl 2

theorem length_encodeChar_unit (unit : UInt16) : (encodeChar (Char.ofNat unit.toNat)).length = 1 := by
  have bound := unit.toNat_lt
  have small : (Char.ofNat unit.toNat).toNat < 0x10000 := Nat.lt_of_le_of_lt (toNat_ofNat_le _) bound
  unfold encodeChar
  rw [if_pos small]
  rfl

/-- A text takes no more code units than it was decoded from. -/
theorem length_encode_le {units : List UInt16} {text : List Char} (h : decode? units = some text) :
    (encode text).length ≤ units.length := by
  fun_induction decode? units generalizing text with
  | case1 =>
    cases h
    exact Nat.le_refl 0
  | case3 a lead b rest trail ih =>
    obtain ⟨others, decoded, rfl⟩ := Option.map_eq_some_iff.mp h
    have pair := length_encodeChar_le (Char.ofNat (0x10000 + (a.toNat - 0xD800) * 0x400 + (b.toNat - 0xDC00)))
    have rest := ih decoded
    unfold encode at rest ⊢
    rw [List.flatMap_cons, List.length_append, List.length_cons, List.length_cons]
    omega
  | case6 a rest lead trail ih =>
    obtain ⟨others, decoded, rfl⟩ := Option.map_eq_some_iff.mp h
    have unit := length_encodeChar_unit a
    have rest := ih decoded
    unfold encode at rest ⊢
    rw [List.flatMap_cons, List.length_append, List.length_cons]
    omega
  | _ => cases h

end Utf16

theorem StringHeap.storable_of_get (h : StringHeap) (index : Nat) :
    Outcome.Answers (h.get index) fun text => (HeapItem.text text).Storable := by
  unfold get
  refine .ite (fun _ => .error) fun _ => .ite (fun _ => .error) fun _ => ?_
  cases decoded : Utf8.decode? ((h.data.drop index).takeWhile (· != 0)) with
  | none => exact .error
  | some text =>
    intro found same
    cases same
    change '\x00' ∉ (String.ofList text).toList
    rw [String.toList_ofList]
    exact Utf8.nul_notMem_of_decode (Utf8.decode_of_decode? decoded) (Utf8.zero_notMem_takeWhile _)

theorem BlobHeap.storable_of_get (h : BlobHeap) (index : Nat) :
    Outcome.Answers (h.get index) fun blob => (HeapItem.blob blob).Storable := by
  have entry : Answers (do take (← Reader.compressed)) fun blob => blob.length < 2 ^ 29 := by
    refine .bind_of answers_compressed fun length small c blob c' run => ?_
    rw [answers_take length c blob c' run]
    exact small
  exact fun blob found => entry.parse found

namespace UserStringHeap

theorem length_units_le (bytes : Bytes) : 2 * (units bytes).length ≤ bytes.length := by
  fun_induction units bytes with
  | case1 a b rest ih =>
    rw [List.length_cons, List.length_cons, List.length_cons]
    omega
  | case2 => exact Nat.zero_le _

theorem storable_of_get (h : UserStringHeap) (index : Nat) :
    Outcome.Answers (h.get index) fun text => (HeapItem.literal text).Storable := by
  have entry : Answers (readEntry index) fun text => (HeapItem.literal text).Storable := by
    unfold readEntry
    refine .bind_of answers_compressed fun length small => .ite (fun _ => .malformed_bind _) fun odd => ?_
    refine .bind_of (answers_take _) fun bytes size => ?_
    cases decoded : Utf16.decode? (units bytes) with
    | none => exact .malformed _
    | some text =>
      refine .pure ?_
      have short := Utf16.length_encode_le decoded
      have half := length_units_le bytes
      change 2 * (Utf16.encode (String.ofList text).toList).length + 1 < 2 ^ 29
      rw [bne_iff_ne, ne_eq, not_not] at odd
      rw [String.toList_ofList]
      omega
  unfold get
  exact .ite (fun _ => .error) fun _ text found => entry.parse found

end UserStringHeap

namespace ModuleImage

variable (image : ModuleImage)

theorem storable_of_string (index : Nat) :
    Outcome.Answers (image.string index) fun text => (HeapItem.text text).Storable := image.strings.storable_of_get index

theorem storable_of_blob (index : Nat) :
    Outcome.Answers (image.blob index) fun blob => (HeapItem.blob blob).Storable := image.blobs.storable_of_get index

theorem storable_of_literal (index : Nat) :
    Outcome.Answers (image.literal index) fun text => (HeapItem.literal text).Storable := by
  unfold literal
  cases image.userStrings? with
  | none => exact .error
  | some heap =>
    dsimp only
    cases found : heap.get index with
    | error e => exact .error
    | ok text => exact .pure (heap.storable_of_get index text found)

end ModuleImage

/-! Code -/

namespace Code

/-- An instruction that can be encoded, apart from its targets. -/
structure Encodable (i : Instruction) : Prop where
  wellFormed : WellFormed i
  storable : ∀ item ∈ i.items, item.Storable

theorem literals_of_mapM {operand : OperandAt Int} {found : Operand} {f : Int → Result Nat} (h : operand.mapM f = .ok found) :
    found.literals = operand.literals := by
  cases operand with
  | target t =>
    obtain ⟨t', -, rfl⟩ := Outcome.map_eq_ok.mp h
    rfl
  | switch ts =>
    obtain ⟨ts', -, rfl⟩ := Outcome.map_eq_ok.mp h
    rfl
  | _ =>
    cases h
    rfl

section

variable {literal : Nat → Result String}
  (storable : ∀ index, Outcome.Answers (literal index) fun text => (HeapItem.literal text).Storable)

include storable

theorem answers_readOperand (start : Nat) (kind : OperandKind) : Reader.Answers (readOperand literal start kind) fun operand =>
    ∀ text ∈ operand.literals, (HeapItem.literal text).Storable := by
  have plain : ∀ text ∈ ([] : List String), (HeapItem.literal text).Storable :=
    fun text impossible => absurd impossible List.not_mem_nil
  cases kind with
  | none => exact .pure plain
  | int8 | uint8 | int32 | int64 | float32 | float64 | shortSlot | slot | token => exact .bind fun _ => .pure plain
  | shortTarget | target => exact .bind fun _ => .bind fun _ => .pure plain
  | string =>
    unfold readOperand
    refine .bind fun token => .ite (fun _ => .malformed_bind _) fun _ => ?_
    exact .bind_of (.ofResult (storable _)) fun text own => .pure (List.forall_mem_singleton.mpr own)
  | switch =>
    unfold readOperand
    exact .bind fun count => .bind fun left => .ite (fun _ => .malformed_bind _) fun _ =>
      .bind fun distances => .bind fun next => .pure plain

theorem answers_readRaw : Reader.Answers (readRaw literal) fun raw =>
    ∀ text ∈ raw.operand.literals, (HeapItem.literal text).Storable := by
  unfold readRaw
  refine .bind fun start => .bind fun o => ?_
  cases o.operation? with
  | none => exact .malformed _
  | some operation =>
    exact .bind_of (answers_readOperand storable start operation.operand) fun operand own => .pure own

theorem encodable_of_decode {bytes : Bytes} {body : DecodedBody} (h : decode literal bytes = .ok body) :
    ∀ i ∈ body.code, Encodable i := by
  have step : Reader.Answers (scanStep literal) fun item =>
      ∀ text ∈ item.2.operand.literals, (HeapItem.literal text).Storable := by
    unfold scanStep
    exact .bind fun start => .bind_of (.mapError (answers_readRaw storable)) fun raw own => .pure own
  have wellFormed := wellFormed_of_decode h
  unfold decode at h
  obtain ⟨items, scan, h⟩ := Outcome.bind_eq_ok.mp h
  obtain ⟨code, found, h⟩ := Outcome.bind_eq_ok.mp h
  cases Outcome.pure_eq_ok.mp h
  have all := Answers.parse (Answers.untilEnd step) scan
  intro i member
  obtain ⟨read, inside, answer⟩ := forall₂_of_mem (Outcome.mapM_eq_ok.mp found).flip member
  obtain ⟨operand, resolved, rfl⟩ := Outcome.map_eq_ok.mp answer
  refine ⟨wellFormed _ member, fun item own => ?_⟩
  rw [Instruction.items_eq, literals_of_mapM resolved] at own
  obtain ⟨text, literal, rfl⟩ := List.mem_map.mp own
  exact all read inside text literal

end

end Code

end CilWeaver
