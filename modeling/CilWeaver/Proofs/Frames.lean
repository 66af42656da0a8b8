import CilWeaver.Machine.Frame
import CilWeaver.Proofs.Lockstep
import CilWeaver.Proofs.Promotion

/-!
What an instruction does inside a frame. It sees the values of the frame, and neither the code around it nor
its position; and a branch does the same in its short and in its long form.
-/

namespace CilWeaver

/-- The same values at another place in the code. -/
def Frame.place (code : List Instruction) (position : Nat) (f : Frame) : Frame := { f with code, position }

/-- Whether an operation with this effect is a branch to one target. -/
def Effect.isJump : Effect → Bool
  | .jump | .jumpIf _ | .jumpWhen _ => true
  | _ => false

/-- The long form of a branch has the effect of the short one. -/
theorem OpCode.effect?_longForm {o : OpCode} (h : o.operandKind = .shortTarget) :
    ∃ long, o.longForm? = some long ∧ long.effect? = o.effect? ∧ o.effect?.all Effect.isJump = true := by
  have all : ∀ operation ∈ catalogue, operation.operand = .shortTarget →
      ∃ long ∈ (⟨UInt16.ofNat operation.code⟩ : OpCode).longForm?,
        long.effect? = (⟨UInt16.ofNat operation.code⟩ : OpCode).effect? ∧
          (⟨UInt16.ofNat operation.code⟩ : OpCode).effect?.all Effect.isJump = true := by decide +kernel
  cases defined : o.operation? with
  | none =>
    rw [operandKind, defined] at h
    cases h
  | some operation =>
    obtain ⟨member, same⟩ := operation?_mem defined
    rw [operandKind_of_operation? defined] at h
    obtain ⟨long, form, effects⟩ := all operation member h
    exact ⟨long, by rw [same]; exact form, by rw [same]; exact effects⟩

namespace FrameAction

variable {code : List Instruction} {position : Nat} {α : Type}

theorem blind_push (v : Value) : Blind (Frame.place code position) (push v) := Blind.update fun _ => rfl

theorem blind_pop : Blind (Frame.place code position) pop := by
  intro f
  obtain ⟨name, old, returnsVoid, arguments, locals, stack, oldPosition⟩ := f
  cases stack with
  | nil => rfl
  | cons v stack => rfl

theorem blind_orFault (answer? : Option α) (fault : MethodFault) :
    Blind (Frame.place code position) (orFault answer? fault) := by
  cases answer? with
  | none => exact Blind.throw fault
  | some a => exact Blind.pure a

theorem blind_load (slots : List Value) (index : Nat) : Blind (Frame.place code position) (load slots index) :=
  (blind_orFault _ _).bind blind_push

theorem blind_store (slots : List Value) (index : Nat) (v : Value) :
    Blind (Frame.place code position) (store slots index v) := by
  unfold store
  split
  · exact Blind.pure _
  · exact Blind.throw _

end FrameAction

namespace Instruction

open FrameAction

variable {code : List Instruction} {position : Nat}

theorem blind_slotIndex (i : Instruction) (index? : Option Nat) :
    Blind (Frame.place code position) (i.slotIndex index?) := by
  unfold slotIndex
  split
  · exact Blind.pure _
  · exact Blind.pure _
  · exact Blind.throw _

theorem blind_jump (i : Instruction) : Blind (Frame.place code position) i.jump := by
  unfold jump
  split
  · exact Blind.pure _
  · exact Blind.throw _

/-- No effect depends on where in the code the frame is, nor does it go elsewhere by itself. -/
theorem blind_perform (i : Instruction) (effect : Effect) : Blind (Frame.place code position) (i.perform effect) := by
  have next : Blind (Frame.place code position) (return .next : FrameAction Control) := Blind.pure _
  cases effect with
  | nothing => exact next
  | loadArgument index? =>
    exact (blind_slotIndex i index?).bind fun index => Blind.get_bind (fun _ => rfl) fun f =>
      (blind_load f.arguments index).bind fun _ => next
  | storeArgument =>
    refine (blind_slotIndex i none).bind fun index => blind_pop.bind fun v => Blind.get_bind (fun _ => rfl) fun f =>
      (blind_store f.arguments index v).bind fun arguments => Blind.bind ?_ fun _ => next
    exact Blind.update fun _ => rfl
  | loadLocal index? =>
    exact (blind_slotIndex i index?).bind fun index => Blind.get_bind (fun _ => rfl) fun f =>
      (blind_load f.locals index).bind fun _ => next
  | storeLocal index? =>
    refine (blind_slotIndex i index?).bind fun index => blind_pop.bind fun v => Blind.get_bind (fun _ => rfl) fun f =>
      (blind_store f.locals index v).bind fun locals => Blind.bind ?_ fun _ => next
    exact Blind.update fun _ => rfl
  | constant n => exact (blind_push _).bind fun _ => next
  | literal =>
    rw [perform]
    split
    · exact (blind_push _).bind fun _ => next
    · exact (blind_push _).bind fun _ => next
    · exact (Blind.throw _).bind fun _ => next
  | duplicate =>
    exact blind_pop.bind fun v => (blind_push v).bind fun _ => (blind_push v).bind fun _ => next
  | discard => exact blind_pop.bind fun _ => next
  | arithmetic op =>
    exact blind_pop.bind fun b => blind_pop.bind fun a => (blind_orFault _ _).bind fun result =>
      (blind_orFault result _).bind fun v => (blind_push v).bind fun _ => next
  | shift s =>
    exact blind_pop.bind fun amount => blind_pop.bind fun v => (blind_orFault _ _).bind fun bits =>
      (blind_orFault _ _).bind fun result => (blind_push result).bind fun _ => next
  | negate => exact blind_pop.bind fun v => (blind_orFault _ _).bind fun result => (blind_push result).bind fun _ => next
  | complement =>
    exact blind_pop.bind fun v => (blind_orFault _ _).bind fun result => (blind_push result).bind fun _ => next
  | convert c =>
    exact blind_pop.bind fun v => (blind_orFault _ _).bind fun result => (blind_push result).bind fun _ => next
  | compare c =>
    exact blind_pop.bind fun b => blind_pop.bind fun a => (blind_orFault _ _).bind fun holds =>
      (blind_push (.ofBool holds)).bind fun _ => next
  | jump => exact blind_jump i
  | jumpIf truth =>
    refine blind_pop.bind fun v => ?_
    split
    · exact blind_jump i
    · exact next
  | jumpWhen c =>
    refine blind_pop.bind fun b => blind_pop.bind fun a => (blind_orFault _ _).bind fun holds => ?_
    split
    · exact blind_jump i
    · exact next
  | select =>
    rw [perform]
    split
    · refine blind_pop.bind fun v => ?_
      split
      · exact next
      · split
        · exact next
        · split
          · exact next
          · exact Blind.pure _
    · exact Blind.throw _
  | call =>
    rw [perform]
    split
    · exact Blind.pure _
    · exact Blind.throw _
  | finish =>
    refine Blind.get_bind (fun _ => rfl) fun f => ?_
    split
    · exact Blind.pure _
    · exact blind_pop.bind fun v => Blind.pure _

theorem blind_execute (i : Instruction) : Blind (Frame.place code position) i.execute := by
  unfold execute
  split
  · exact Blind.throw _
  · exact blind_perform i _

/-- An instruction leaves its frame where it is. -/
theorem execute_keeps_place {i : Instruction} {f g : Frame} {control : Control} (run : i.execute f = .ok control g) :
    g = g.place f.code f.position := by
  have blind : Blind (Frame.place f.code f.position) i.execute := i.blind_execute
  have again : i.execute f = .ok control (g.place f.code f.position) := blind.answers run
  rw [run] at again
  exact (EStateM.Result.ok.inj again).2

theorem perform_long {i : Instruction} {target : Nat} (operand : i.operand = .target target) {effect : Effect}
    (isJump : effect.isJump = true) : i.long.perform effect = i.perform effect := by
  have same : i.long.jump = i.jump := by
    unfold jump
    rw [show i.long.operand = i.operand from rfl, operand]
  cases effect with
  | jump => exact same
  | jumpIf truth =>
    rw [perform, perform, same]
  | jumpWhen c =>
    rw [perform, perform, same]
  | _ => cases isJump

/-- A widened instruction does the same, unless it is a branch that the machine knows in neither form. -/
theorem Widened.execute {i j : Instruction} (widened : Widened i j) :
    j.execute = i.execute ∨ ∃ long, i.opcode.longForm? = some long ∧ i.execute = throw (.unsupported i.opcode) ∧
      j.execute = throw (.unsupported long) := by
  rcases widened with rfl | ⟨short, ⟨target, operand⟩, rfl⟩
  · exact .inl rfl
  · obtain ⟨long, form, same, isJump⟩ := OpCode.effect?_longForm (beq_iff_eq.mp short)
    have opcode : i.long.opcode = long := by
      rw [Instruction.long, form]
      rfl
    unfold Instruction.execute
    rw [opcode, same]
    cases effect : i.opcode.effect? with
    | none => exact .inr ⟨long, form, rfl, rfl⟩
    | some e =>
      rw [effect] at isJump
      exact .inl (perform_long operand isJump)

end Instruction

end CilWeaver
