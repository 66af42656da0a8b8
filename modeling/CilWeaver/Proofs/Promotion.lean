import CilWeaver.Instruction.Encode
import CilWeaver.Proofs.Steps

/-!
Promotion ends in a layout in which every short branch reaches its target, and changes nothing but
the operation codes of short branches.
-/

namespace CilWeaver

namespace OpCode

theorem operation?_mem {o : OpCode} {operation : Operation} (h : o.operation? = some operation) :
    operation ∈ catalogue ∧ o = ⟨UInt16.ofNat operation.code⟩ := by
  refine ⟨List.mem_of_find?_eq_some h, ?_⟩
  have same := List.find?_some h
  rw [beq_iff_eq] at same
  rw [same, UInt16.ofNat_toNat]

theorem operandKind_of_operation? {o : OpCode} {operation : Operation} (h : o.operation? = some operation) :
    o.operandKind = operation.operand := by
  rw [operandKind, h]
  rfl

/-- Every short branch has a long form. -/
theorem longForm_of_short {o : OpCode} (h : o.operandKind = .shortTarget) :
    ∃ long operation, o.longForm? = some long ∧ long.operation? = some operation ∧
      operation.operand = .target := by
  have all : ∀ operation ∈ catalogue, operation.operand = .shortTarget →
      ∃ long ∈ (⟨UInt16.ofNat operation.code⟩ : OpCode).longForm?,
        ∃ l ∈ long.operation?, l.operand = .target := by decide +kernel
  cases defined : o.operation? with
  | none =>
    rw [operandKind, defined] at h
    cases h
  | some operation =>
    obtain ⟨member, same⟩ := operation?_mem defined
    rw [operandKind_of_operation? defined] at h
    obtain ⟨long, hlong, l, hl, kind⟩ := all operation member h
    exact ⟨long, l, by rw [same]; exact hlong, hl, kind⟩

end OpCode

namespace Instruction

def isShort (i : Instruction) : Bool := i.opcode.operandKind == .shortTarget

/-- The instruction with the long form of its operation code. -/
def long (i : Instruction) : Instruction := { i with opcode := i.opcode.longForm?.getD i.opcode }

theorem long_of_short {i : Instruction} (h : i.isShort = true) :
    i.long.opcode.operandKind = .target ∧
      ∃ operation, i.long.opcode.operation? = some operation ∧ operation.operand = .target := by
  obtain ⟨long, operation, form, defined, kind⟩ := OpCode.longForm_of_short (beq_iff_eq.mp h)
  have same : i.long.opcode = long := by
    rw [Instruction.long, form]
    rfl
  rw [same]
  exact ⟨(OpCode.operandKind_of_operation? defined).trans kind, operation, defined, kind⟩

theorem long_not_short {i : Instruction} (h : i.isShort = true) : i.long.isShort = false := by
  rw [isShort, (long_of_short h).1]
  rfl

/-- What promotion may do to an instruction: nothing, or widen a short branch. -/
def Widened (before after : Instruction) : Prop :=
  after = before ∨ (before.isShort = true ∧ (∃ t, before.operand = .target t) ∧ after = before.long)

theorem Widened.refl (i : Instruction) : Widened i i := .inl rfl

theorem Widened.operand_eq {before after : Instruction} (h : Widened before after) :
    after.operand = before.operand := by
  rcases h with rfl | ⟨-, -, rfl⟩
  · rfl
  · rfl

theorem Widened.trans {a b c : Instruction} (first : Widened a b) (second : Widened b c) :
    Widened a c := by
  rcases first with rfl | ⟨short, target, rfl⟩
  · exact second
  · rcases second with rfl | ⟨again, -, -⟩
    · exact .inr ⟨short, target, rfl⟩
    · rw [long_not_short short] at again
      cases again

end Instruction

namespace Code

open Instruction

theorem length_offsetsFrom (start : Nat) (code : List Instruction) :
    (offsetsFrom start code).length = code.length + 1 := by
  induction code generalizing start with
  | nil => rfl
  | cons i code ih => rw [offsetsFrom, List.length_cons, ih, List.length_cons]

theorem length_offsets (code : List Instruction) : (offsets code).length = code.length + 1 :=
  length_offsetsFrom 0 code

theorem length_tail_offsets (code : List Instruction) : (offsets code).tail.length = code.length := by
  rw [List.length_tail, length_offsets, Nat.add_sub_cancel]

theorem widened_widen (offsets : Array Nat) (next : Nat) (i : Instruction) :
    Widened i (widen offsets next i) := by
  unfold widen
  split
  · rename_i target kind operand
    split
    · exact .inl rfl
    · exact .inr ⟨beq_iff_eq.mpr kind, ⟨_, operand⟩, rfl⟩
  · exact .inl rfl

/-- Widening either leaves an instruction or makes it long. -/
theorem widen_cases (offsets : Array Nat) (next : Nat) (i : Instruction) :
    widen offsets next i = i ∨ (i.isShort = true ∧ (widen offsets next i).isShort = false) := by
  rcases widened_widen offsets next i with same | ⟨short, -, widened⟩
  · exact .inl same
  · exact .inr ⟨short, by rw [widened, long_not_short short]⟩

theorem length_promoteOnce (code : List Instruction) : (promoteOnce code).length = code.length := by
  rw [promoteOnce, List.length_zipWith, length_tail_offsets, Nat.min_self]

theorem forall₂_zipWith_widen (offsets : Array Nat) {ends : List Nat} {code : List Instruction}
    (h : ends.length = code.length) :
    List.Forall₂ Widened code (List.zipWith (widen offsets) ends code) := by
  induction code generalizing ends with
  | nil => rw [List.zipWith_nil_right]; exact .nil
  | cons i code ih =>
    cases ends with
    | nil => cases h
    | cons next ends => exact .cons (widened_widen offsets next i) (ih (Nat.succ.inj h))

theorem widened_promoteOnce (code : List Instruction) : List.Forall₂ Widened code (promoteOnce code) :=
  forall₂_zipWith_widen _ (length_tail_offsets code)

theorem forall₂_trans {a b c : List Instruction} (first : List.Forall₂ Widened a b)
    (second : List.Forall₂ Widened b c) : List.Forall₂ Widened a c := by
  induction first generalizing c with
  | nil => cases second; exact .nil
  | cons h hs ih =>
    cases second with
    | cons k ks => exact .cons (h.trans k) (ih ks)

theorem widened_promoteRounds (rounds : Nat) (code : List Instruction) :
    List.Forall₂ Widened code (promoteRounds rounds code) := by
  induction rounds generalizing code with
  | zero => exact List.forall₂_same.mpr fun i _ => .refl i
  | succ rounds ih =>
    rw [promoteRounds]
    split
    · exact List.forall₂_same.mpr fun i _ => .refl i
    · exact forall₂_trans (widened_promoteOnce code) (ih (promoteOnce code))

/-- Promotion only widens short branches. -/
theorem widened_promote (code : List Instruction) : List.Forall₂ Widened code (promote code) :=
  widened_promoteRounds code.length code

/-- A round that changes anything leaves fewer short branches. -/
theorem countP_zipWith_widen (offsets : Array Nat) {ends : List Nat} {code : List Instruction}
    (h : ends.length = code.length) :
    List.zipWith (widen offsets) ends code = code ∨
      (List.zipWith (widen offsets) ends code).countP isShort < code.countP isShort := by
  induction code generalizing ends with
  | nil => exact .inl (List.zipWith_nil_right ..)
  | cons i code ih =>
    cases ends with
    | nil => cases h
    | cons next ends =>
      rw [List.zipWith_cons_cons, List.countP_cons, List.countP_cons]
      have rest := ih (Nat.succ.inj h)
      have bound : (List.zipWith (widen offsets) ends code).countP isShort ≤ code.countP isShort := by
        rcases rest with same | fewer
        · exact Nat.le_of_eq (congrArg _ same)
        · exact Nat.le_of_lt fewer
      rcases widen_cases offsets next i with same | ⟨short, long⟩
      · rw [same]
        rcases rest with equal | fewer
        · exact .inl (by rw [equal])
        · exact .inr (by omega)
      · right
        rw [short, long]
        simp only [Bool.false_eq_true, ↓reduceIte]
        omega

theorem promoteOnce_promoteRounds {rounds : Nat} {code : List Instruction}
    (enough : code.countP isShort ≤ rounds) :
    promoteOnce (promoteRounds rounds code) = promoteRounds rounds code := by
  induction rounds generalizing code with
  | zero =>
    rcases countP_zipWith_widen (offsets code).toArray (length_tail_offsets code) with same | fewer
    · exact same
    · omega
  | succ rounds ih =>
    rw [promoteRounds]
    split
    · rename_i same
      exact beq_iff_eq.mp same
    · rename_i different
      rcases countP_zipWith_widen (offsets code).toArray (length_tail_offsets code) with same | fewer
      · exact absurd (beq_iff_eq.mpr same) different
      · exact ih (by rw [promoteOnce]; omega)

/-- The layout that promotion ends in is final. -/
theorem promoteOnce_promote (code : List Instruction) : promoteOnce (promote code) = promote code :=
  promoteOnce_promoteRounds List.countP_le_length

theorem promote_of_promoteOnce {code : List Instruction} (h : promoteOnce code = code) :
    promote code = code := by
  unfold promote
  cases code.length with
  | zero => rfl
  | succ rounds =>
    simp only [promoteRounds, h, beq_self_eq_true, ↓reduceIte]

theorem promote_promote (code : List Instruction) : promote (promote code) = promote code :=
  promote_of_promoteOnce (promoteOnce_promote code)

/-- In a final layout every short branch reaches its target. -/
theorem fitsShort_of_final {code : List Instruction} (final : promoteOnce code = code) {index next : Nat}
    {i : Instruction} (hi : code[index]? = some i) (hnext : (offsets code).tail[index]? = some next)
    (short : i.isShort = true) {target : Nat} (operand : i.operand = .target target) :
    fitsShort (distance (offsets code).toArray next target) = true := by
  have same : widen (offsets code).toArray next i = i := by
    have place := congrArg (·[index]?) final
    simp only [promoteOnce, List.getElem?_zipWith, hi, hnext] at place
    exact Option.some.inj place
  by_contra far
  have widened : widen (offsets code).toArray next i = i.long := by
    unfold widen
    rw [beq_iff_eq.mp short, operand]
    simp only [far, ↓reduceIte]
    rw [Instruction.long, operand]
  rw [same] at widened
  have long := long_not_short short
  rw [← widened, short] at long
  cases long

end Code

end CilWeaver
