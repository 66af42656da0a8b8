import CilWeaver.OpCode
import CilWeaver.Token

/-!
Instructions. The type of branch targets is a parameter: a body names the index of an instruction,
the byte stream an absolute position.
-/

namespace CilWeaver

/-- The argument of an instruction. Floating point literals are bit patterns, so two literals are
    equal iff they are the same bits. -/
inductive OperandAt (τ : Type) where
  | none
  | int32 (value : Int32)
  | int64 (value : Int64)
  | float32 (bits : UInt32)
  | float64 (bits : UInt64)
  | slot (index : UInt16)
  | string (text : String)
  | token (value : Token)
  | target (place : τ)
  | switch (targets : List τ)
deriving DecidableEq

/-- An operand whose targets are instruction indices. -/
abbrev Operand := OperandAt Nat

namespace OperandAt

variable {τ σ : Type}

instance : Inhabited (OperandAt τ) := ⟨none⟩

/-- The targets in the order in which they are written. -/
def targets : OperandAt τ → List τ
  | target t => [t]
  | switch ts => ts
  | _ => []

def map (f : τ → σ) : OperandAt τ → OperandAt σ
  | none => none
  | int32 v => int32 v
  | int64 v => int64 v
  | float32 b => float32 b
  | float64 b => float64 b
  | slot i => slot i
  | string s => string s
  | token t => token t
  | target t => target (f t)
  | switch ts => switch (ts.map f)

/-- Replaces each target by the answer of `f`, from the first target on, until one is refused. -/
def mapM {ε : Type} (f : τ → Except ε σ) : OperandAt τ → Except ε (OperandAt σ)
  | none => .ok none
  | int32 v => .ok (int32 v)
  | int64 v => .ok (int64 v)
  | float32 b => .ok (float32 b)
  | float64 b => .ok (float64 b)
  | slot i => .ok (slot i)
  | string s => .ok (string s)
  | token t => .ok (token t)
  | target t => (f t).map target
  | switch ts => (ts.mapM f).map switch

def token? : OperandAt τ → Option Token
  | token t => some t
  | _ => Option.none

@[simp] theorem targets_map (f : τ → σ) (o : OperandAt τ) :
    (o.map f).targets = o.targets.map f := by
  cases o <;> rfl

@[simp] theorem token?_map (f : τ → σ) (o : OperandAt τ) : (o.map f).token? = o.token? := by
  cases o <;> rfl

@[simp] theorem map_id (o : OperandAt τ) : o.map (fun t => t) = o := by
  cases o <;> simp [map]

end OperandAt

structure InstructionAt (τ : Type) where
  opcode : OpCode
  operand : OperandAt τ
deriving DecidableEq

abbrev Instruction := InstructionAt Nat

namespace InstructionAt

variable {τ σ : Type}

instance : Inhabited (InstructionAt τ) := ⟨⟨default, .none⟩⟩

def mnemonic (i : InstructionAt τ) : String := i.opcode.mnemonic

def endsBlock (i : InstructionAt τ) : Bool := i.opcode.flow.endsBlock

def targets (i : InstructionAt τ) : List τ := i.operand.targets

def map (f : τ → σ) (i : InstructionAt τ) : InstructionAt σ := ⟨i.opcode, i.operand.map f⟩

def mapM {ε : Type} (f : τ → Except ε σ) (i : InstructionAt τ) : Except ε (InstructionAt σ) :=
  (i.operand.mapM f).map (⟨i.opcode, ·⟩)

end InstructionAt

namespace Instruction

/-- Pushes a four byte integer. -/
def ldcI4 (value : Int32) : Instruction := ⟨.ldcI4, .int32 value⟩

def ret : Instruction := ⟨.ret, .none⟩

def nop : Instruction := ⟨⟨0x00⟩, .none⟩

end Instruction

end CilWeaver
