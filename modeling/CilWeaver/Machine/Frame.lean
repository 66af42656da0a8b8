import CilWeaver.Error
import CilWeaver.Instruction.Basic
import CilWeaver.Machine.Effect

/-!
A method at work, and what one instruction does inside it.
-/

namespace CilWeaver

/-- A method at work. The top of the stack is its head. -/
structure Frame where
  /-- The method in the messages about it. -/
  name : String
  code : List Instruction
  returnsVoid : Bool
  arguments : List Value
  locals : List Value
  stack : List Value := []
  position : Nat := 0
deriving DecidableEq

/-- Where the machine goes on after an instruction. -/
inductive Control where
  | next
  | jump (target : Nat)
  | call (callee : Token)
  | finish (value : Value)
deriving DecidableEq

abbrev FrameAction := EStateM MethodFault Frame

namespace FrameAction

def push (v : Value) : FrameAction Unit := modify fun f => { f with stack := v :: f.stack }

def pop : FrameAction Value := fun f =>
  match f.stack with
  | [] => .error .underflow f
  | v :: stack => .ok v { f with stack }

/-- The part of an answer that is there. -/
def orFault {α : Type} (answer? : Option α) (fault : MethodFault) : FrameAction α :=
  match answer? with
  | none => throw fault
  | some a => return a

def load (slots : List Value) (index : Nat) : FrameAction Unit := do
  push (← orFault slots[index]? (.noSlot index slots.length))

/-- The slots with another value in one of them. -/
def store (slots : List Value) (index : Nat) (v : Value) : FrameAction (List Value) :=
  if index < slots.length then return slots.set index v else throw (.noSlot index slots.length)

end FrameAction

namespace Instruction

open FrameAction

/-- The index of a slot, if it is not in the operand. -/
def slotIndex (i : Instruction) (index? : Option Nat) : FrameAction Nat :=
  match index?, i.operand with
  | some index, _ => return index
  | none, .slot index => return index.toNat
  | none, _ => throw (.noIndex i.opcode)

def jump (i : Instruction) : FrameAction Control :=
  match i.operand with
  | .target target => return .jump target
  | _ => throw (.noTarget i.opcode)

/-- Performs one effect. A jump that is not taken needs no target. -/
def perform (i : Instruction) : Effect → FrameAction Control
  | .nothing => return .next
  | .loadArgument index? => do
    let index ← i.slotIndex index?
    load (← get).arguments index
    return .next
  | .storeArgument => do
    let index ← i.slotIndex none
    let v ← pop
    let arguments ← store (← get).arguments index v
    modify ({ · with arguments })
    return .next
  | .loadLocal index? => do
    let index ← i.slotIndex index?
    load (← get).locals index
    return .next
  | .storeLocal index? => do
    let index ← i.slotIndex index?
    let v ← pop
    let locals ← store (← get).locals index v
    modify ({ · with locals })
    return .next
  | .constant n => do
    push (.int32 n)
    return .next
  | .literal => do
    match i.operand with
    | .int32 n => push (.int32 n)
    | .int64 n => push (.int64 n)
    | _ => throw (.noLiteral i.opcode)
    return .next
  | .duplicate => do
    let v ← pop
    push v
    push v
    return .next
  | .discard => do
    let _ ← pop
    return .next
  | .arithmetic op => do
    let b ← pop
    let a ← pop
    push (← orFault (← orFault (op.eval? a b) (.mismatch i.opcode a b)) (.trap i.opcode a b))
    return .next
  | .shift s => do
    let amount ← pop
    let v ← pop
    let amount ← orFault amount.int32? (.shiftAmount amount)
    push (← orFault (s.eval? amount v) (.shiftOf i.opcode v))
    return .next
  | .negate => do
    push (← orFault (← pop).negate? (.voidOperand i.opcode))
    return .next
  | .complement => do
    push (← orFault (← pop).complement? (.voidOperand i.opcode))
    return .next
  | .convert c => do
    push (← orFault (c.eval? (← pop)) .voidConversion)
    return .next
  | .compare c => do
    let b ← pop
    let a ← pop
    push (.ofBool (← orFault (c.eval? a b) (.incomparable a b)))
    return .next
  | .jump => i.jump
  | .jumpIf truth => do
    let v ← pop
    if v.isTrue == truth then i.jump else return .next
  | .jumpWhen c => do
    let b ← pop
    let a ← pop
    if ← orFault (c.eval? a b) (.incomparable a b) then i.jump else return .next
  | .select => do
    let .switch targets := i.operand | throw .noTargets
    let v ← pop
    match v.int32? with
    | none => return .next
    | some n =>
      if n < 0 then return .next
      else match targets[n.toInt.toNat]? with
        | none => return .next
        | some target => return .jump target
  | .call => do
    let .token callee := i.operand | throw .noCallee
    return .call callee
  | .finish => do
    if (← get).returnsVoid then return .finish .void else return .finish (← pop)

/-- Runs an instruction inside a frame. -/
def execute (i : Instruction) : FrameAction Control :=
  match i.opcode.effect? with
  | none => throw (.unsupported i.opcode)
  | some effect => i.perform effect

end Instruction

end CilWeaver
