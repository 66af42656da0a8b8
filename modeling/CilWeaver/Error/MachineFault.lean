import CilWeaver.Machine.Value
import CilWeaver.OpCode
import CilWeaver.Signature.Text

/-!
Why the emulated machine stops without a result.
-/

namespace CilWeaver

/-- What goes wrong inside one method. -/
inductive MethodFault where
  | notAMethod
  | instanceMethod
  | argumentCount (expected given : Nat)
  | noBody
  | offTheEnd (position : Nat)
  | budget (limit : Nat)
  | underflow
  | noSlot (index count : Nat)
  | noTarget (opcode : OpCode)
  | noIndex (opcode : OpCode)
  | noLiteral (opcode : OpCode)
  | mismatch (opcode : OpCode) (left right : Value)
  | trap (opcode : OpCode) (left right : Value)
  | shiftAmount (amount : Value)
  | shiftOf (opcode : OpCode) (value : Value)
  | voidOperand (opcode : OpCode)
  | voidConversion
  | incomparable (left right : Value)
  | noTargets
  | noCallee
  | foreignCall (callee : Token)
  | missingCallee (callee : Token)
  | unsupported (opcode : OpCode)
deriving DecidableEq

/-- A fault, with the method it happens in where there is one. -/
inductive MachineFault where
  | unknownMethod (type method : String)
  | localType (type : TypeSig)
  | inMethod (method : String) (fault : MethodFault)
deriving DecidableEq

open Text (decimal)

def MethodFault.message : MethodFault → String
  | notAMethod => "not a method of this module"
  | instanceMethod => "instance methods are not supported"
  | argumentCount expected given =>
    s!"expects {decimal expected} argument(s), got {decimal given}"
  | noBody => "has no body"
  | offTheEnd position => s!"execution ran off the body at {decimal position}"
  | budget limit => s!"instruction budget of {decimal limit} exhausted"
  | underflow => "evaluation stack underflow"
  | noSlot index count => s!"slot {decimal index} of {decimal count}"
  | noTarget opcode => s!"{opcode.mnemonic} without target"
  | noIndex opcode => s!"{opcode.mnemonic} without index"
  | noLiteral opcode => s!"{opcode.mnemonic} without literal"
  | mismatch opcode left right =>
    s!"{opcode.mnemonic} on mismatched operands {left.text} and {right.text}"
  | trap opcode left right => s!"{opcode.mnemonic} of {left.text} and {right.text} traps"
  | shiftAmount amount => s!"shift by {amount.text}"
  | shiftOf opcode value => s!"{opcode.mnemonic} of {value.text}"
  | voidOperand opcode => s!"{opcode.mnemonic} of void"
  | voidConversion => "conversion of void"
  | incomparable left right => s!"can not compare {left.text} with {right.text}"
  | noTargets => "switch without targets"
  | noCallee => "call without token"
  | foreignCall callee => s!"call to {callee.text} leaves the module"
  | missingCallee callee => s!"call to missing {callee.text}"
  | unsupported opcode => s!"{opcode.mnemonic} is not supported"

def MachineFault.message : MachineFault → String
  | unknownMethod type method => s!"{type}::{method} does not exist"
  | localType type => s!"locals of type {type.detail} are not supported"
  | inMethod method fault => s!"{method}: {fault.message}"

end CilWeaver
