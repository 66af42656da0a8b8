import CilWeaver.Machine.Frame
import CilWeaver.Module.Basic
import CilWeaver.Signature.Reader

/-!
Runs the methods of a module. A run is a sequence of steps from one `Machine` to the next; `fuel`
bounds their number, and a run that needs more has the answer `none`.
-/

namespace CilWeaver

/-- The bounds of a run; zero instructions stand for no bound on them. -/
structure MachineLimits where
  instructions : Nat := 1000000
  depth : Nat := 256
deriving DecidableEq

/-- A machine at work: the frame that runs, and those that wait for it, the innermost first. -/
structure Machine where
  /-- How many instructions were started. -/
  executed : Nat
  frame : Frame
  callers : List Frame
deriving DecidableEq

/-- What follows a step. -/
inductive Progress where
  | running (machine : Machine)
  | ended (result : Result Value) (executed : Nat)

/-- What a local of a type holds at the start. -/
def TypeSig.initialValue : TypeSig → Result Value
  | .primitive .int64 | .primitive .uint64 => .ok (.int64 0)
  | .primitive .boolean | .primitive .char | .primitive .int8 | .primitive .uint8
  | .primitive .int16 | .primitive .uint16 | .primitive .int32 | .primitive .uint32 =>
    .ok (.int32 0)
  | t => .error (.machine (.localType t))

namespace Module

/-- The frame of a method at its start, below `depth` others. -/
def enter (m : Module) (limits : MachineLimits) (token : Token) (arguments : List Value)
    (depth : Nat) : Result Frame := do
  if limits.depth ≤ depth then throw (.recursionLimit limits.depth)
  let some d := m.method? token | throw (.machine (.inMethod token.text .notAMethod))
  let name := s!"{d.name}({token.text})"
  let fail (fault : MethodFault) : Error := .machine (.inMethod name fault)
  let signature ← Signature.parseMethod d.signature
  if signature.hasThis then throw (fail .instanceMethod)
  if arguments.length ≠ signature.parameters.length then
    throw (fail (.argumentCount signature.parameters.length arguments.length))
  let some b := d.body? | throw (fail .noBody)
  let locals ← b.locals.mapM (·.initialValue)
  let returnsVoid := signature.returns == .primitive .void
  return { name, code := b.code, returnsVoid, arguments, locals }

/-- The frame of a callee with the arguments that its caller has on the stack, and the caller
    without them. -/
def enterCall (m : Module) (limits : MachineLimits) (callee : Token) (caller : Frame)
    (depth : Nat) : Result (Frame × Frame) := do
  let fail (fault : MethodFault) : Error := .machine (.inMethod caller.name fault)
  if !callee.isIn .methodDef then throw (fail (.foreignCall callee))
  let some d := m.method? callee | throw (fail (.missingCallee callee))
  let count := (← Signature.parseMethod d.signature).parameters.length
  if caller.stack.length < count then throw (fail .underflow)
  let frame ← m.enter limits callee (caller.stack.take count).reverse depth
  return (frame, { caller with stack := caller.stack.drop count })

end Module

/-- The frame with the result of a call; a method without result leaves nothing. -/
def Frame.resume (f : Frame) (result : Value) : Frame :=
  if result = .void then f else { f with stack := result :: f.stack }

namespace Machine

/-- The end of a run by a fault in the running method. -/
def fail (s : Machine) (fault : MethodFault) : Progress :=
  .ended (.error (.machine (.inMethod s.frame.name fault))) s.executed

/-- Goes where an instruction said. -/
def follow (m : Module) (limits : MachineLimits) (s : Machine) : Control → Progress
  | .next => .running { s with frame := { s.frame with position := s.frame.position + 1 } }
  | .jump target => .running { s with frame := { s.frame with position := target } }
  | .finish value =>
    match s.callers with
    | [] => .ended (.ok value) s.executed
    | caller :: callers => .running ⟨s.executed, caller.resume value, callers⟩
  | .call callee =>
    let caller := { s.frame with position := s.frame.position + 1 }
    match m.enterCall limits callee caller (s.callers.length + 1) with
    | .error e => .ended (.error e) s.executed
    | .ok (frame, caller) => .running ⟨s.executed, frame, caller :: s.callers⟩

/-- Runs one instruction. It counts as executed also if the bound refuses it. -/
def step (m : Module) (limits : MachineLimits) (s : Machine) : Progress :=
  match s.frame.code[s.frame.position]? with
  | none => s.fail (.offTheEnd s.frame.position)
  | some i =>
    let s := { s with executed := s.executed + 1 }
    if 0 < limits.instructions ∧ limits.instructions < s.executed then
      s.fail (.budget limits.instructions)
    else
      match i.execute s.frame with
      | .error fault _ => s.fail fault
      | .ok control frame => { s with frame }.follow m limits control

end Machine

namespace Progress

/-- The start of a run, with the count of the instructions that were executed before. -/
def start (m : Module) (limits : MachineLimits) (token : Token) (arguments : List Value)
    (executed : Nat) : Progress :=
  match m.enter limits token arguments 0 with
  | .error e => .ended (.error e) executed
  | .ok frame => .running ⟨executed, frame, []⟩

/-- The result of a run and the count of executed instructions, unless the fuel is too low. -/
def run (m : Module) (limits : MachineLimits) : (fuel : Nat) → Progress →
    Option (Result Value × Nat)
  | _, ended result executed => some (result, executed)
  | 0, running _ => none
  | fuel + 1, running s => run m limits fuel (s.step m limits)

theorem run_ended (m : Module) (limits : MachineLimits) (fuel : Nat) (result : Result Value)
    (executed : Nat) : run m limits fuel (ended result executed) = some (result, executed) := by
  cases fuel <;> rfl

end Progress

/-- A machine between two runs. All its runs share one count of executed instructions. -/
structure Emulator where
  limits : MachineLimits := {}
  executed : Nat := 0
deriving DecidableEq

namespace Emulator

/-- Runs a method of a module. -/
def invoke (e : Emulator) (m : Module) (fuel : Nat) (token : Token) (arguments : List Value) :
    Option (Result Value × Emulator) :=
  ((Progress.start m e.limits token arguments e.executed).run m e.limits fuel).map
    fun (result, executed) => (result, { e with executed })

/-- Runs the first method with a name in the type with a name. -/
def invokeNamed (e : Emulator) (m : Module) (fuel : Nat) (typeName methodName : String)
    (arguments : List Value) : Option (Result Value × Emulator) :=
  match m.findMethod? typeName methodName with
  | none => some (.error (.machine (.unknownMethod typeName methodName)), e)
  | some (token, _) => e.invoke m fuel token arguments

end Emulator

end CilWeaver
