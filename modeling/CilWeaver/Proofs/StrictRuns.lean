import CilWeaver.Machine.Emulator
import CilWeaver.Proofs.StrictSignatures

/-!
Runs with operations that may have no result. A quotient that a width does not hold, a shift by the whole width, an
index or a difference out of range has none. A strict machine checks what the machine checks, and has its results.
-/

namespace CilWeaver

open Partly (Gives minus)

namespace Arithmetic

variable {width : Nat}

/-- The quotient toward zero, if the divisor is not zero and the width holds it. -/
def quotient? (a b : BitVec width) : Option (BitVec width) :=
  let exact := a.toInt.tdiv b.toInt
  if b.toInt ≠ 0 ∧ -2 ^ (width - 1) ≤ exact ∧ exact < 2 ^ (width - 1) then some (.ofInt width exact) else none

/-- What such a quotient leaves. -/
def remainder? (a b : BitVec width) : Option (BitVec width) :=
  (quotient? a b).map fun _ => .ofInt width (a.toInt.tmod b.toInt)

def unsignedQuotient? (a b : BitVec width) : Option (BitVec width) :=
  if b.toNat ≠ 0 then some (.ofNat width (a.toNat / b.toNat)) else none

def unsignedRemainder? (a b : BitVec width) : Option (BitVec width) :=
  if b.toNat ≠ 0 then some (.ofNat width (a.toNat % b.toNat)) else none

def strictOfBits (op : Arithmetic) (a b : BitVec width) : Option (Option (BitVec width)) :=
  match op with
  | div => if divides a b then (quotient? a b).map some else some none
  | divUnsigned => if b != 0 then (unsignedQuotient? a b).map some else some none
  | rem => if divides a b then (remainder? a b).map some else some none
  | remUnsigned => if b != 0 then (unsignedRemainder? a b).map some else some none
  | op => some (op.ofBits a b)

def strictEval (op : Arithmetic) : Value → Value → Option (Option (Option Value))
  | .int32 a, .int32 b => (op.strictOfBits a.toBitVec b.toBitVec).map fun c => some (c.map (.int32 <| .ofBitVec ·))
  | .int64 a, .int64 b => (op.strictOfBits a.toBitVec b.toBitVec).map fun c => some (c.map (.int64 <| .ofBitVec ·))
  | _, _ => some none

theorem toInt_ne_zero {b : BitVec width} (h : b ≠ 0) : b.toInt ≠ 0 :=
  fun zero => h (BitVec.eq_of_toInt_eq (zero.trans BitVec.toInt_zero.symm))

theorem toNat_ne_zero {b : BitVec width} (h : b ≠ 0) : b.toNat ≠ 0 :=
  fun zero => h (BitVec.eq_of_toNat_eq (zero.trans BitVec.toNat_zero.symm))

theorem quotient_eq_some {a b : BitVec width} (h : divides a b = true) : quotient? a b = some (a.sdiv b) := by
  obtain ⟨nonzero, fits⟩ : b ≠ 0 ∧ (a ≠ BitVec.intMin width ∨ b ≠ BitVec.allOnes width) := by
    simpa only [divides, Bool.and_eq_true, bne_iff_ne, Bool.not_eq_true', Bool.and_eq_false_iff, beq_eq_false_iff_ne] using h
  have exact : (a.sdiv b).toInt = a.toInt.tdiv b.toInt := by
    refine BitVec.toInt_sdiv_of_ne_or_ne a b ?_
    rw [BitVec.neg_one_eq_allOnes]
    exact fits
  unfold quotient?
  dsimp only
  rw [← exact, if_pos ⟨toInt_ne_zero nonzero, BitVec.le_toInt _, BitVec.toInt_lt⟩, BitVec.ofInt_toInt]

theorem remainder_eq_some {a b : BitVec width} (h : divides a b = true) : remainder? a b = some (a.srem b) := by
  rw [remainder?, quotient_eq_some h, Option.map_some, ← BitVec.toInt_srem, BitVec.ofInt_toInt]

theorem unsignedQuotient_eq_some {a b : BitVec width} (h : b ≠ 0) : unsignedQuotient? a b = some (a.udiv b) := by
  rw [unsignedQuotient?, if_pos (toNat_ne_zero h), ← BitVec.toNat_udiv, BitVec.ofNat_toNat, BitVec.setWidth_eq]
  rfl

theorem unsignedRemainder_eq_some {a b : BitVec width} (h : b ≠ 0) : unsignedRemainder? a b = some (a.umod b) := by
  rw [unsignedRemainder?, if_pos (toNat_ne_zero h), ← BitVec.toNat_umod, BitVec.ofNat_toNat, BitVec.setWidth_eq]
  rfl

/-- Where a quotient or a remainder is asked for, there is one. -/
theorem strictOfBits_eq (op : Arithmetic) (a b : BitVec width) : op.strictOfBits a b = some (op.ofBits a b) := by
  have guarded {c : Prop} [Decidable c] {x? : Option (BitVec width)} {x : BitVec width} (found : c → x? = some x) :
      (if c then x?.map some else some none) = some (if c then some x else none) := by
    split
    · rename_i asked
      rw [found asked]
      rfl
    · rfl
  have nonzero (h : (b != 0) = true) : b ≠ 0 := bne_iff_ne.mp h
  cases op with
  | div => exact guarded quotient_eq_some
  | divUnsigned => exact guarded fun h => unsignedQuotient_eq_some (nonzero h)
  | rem => exact guarded remainder_eq_some
  | remUnsigned => exact guarded fun h => unsignedRemainder_eq_some (nonzero h)
  | _ => rfl

theorem strictEval_eq (op : Arithmetic) (a b : Value) : op.strictEval a b = some (op.eval? a b) := by
  cases a <;> cases b <;> simp only [strictEval, eval?, strictOfBits_eq, Option.map_some]

end Arithmetic

namespace Shift

variable {width : Nat}

/-- Shifts by less than the width. -/
def within? (s : Shift) (amount : Nat) (a : BitVec width) : Option (BitVec width) :=
  if width ≤ amount then none
  else
    match s with
    | left => some (a <<< amount)
    | right => some (a.sshiftRight amount)
    | rightUnsigned => some (a >>> amount)

def strictEval (s : Shift) (amount : Int32) (v : Value) : Option (Option Value) :=
  let amount := amount.toUInt32.toNat
  match v with
  | .void => some none
  | .int32 a => (s.within? (amount % 32) a.toBitVec).map fun b => some (.int32 (.ofBitVec b))
  | .int64 a => (s.within? (amount % 64) a.toBitVec).map fun b => some (.int64 (.ofBitVec b))

theorem within_eq_some (s : Shift) (positive : 0 < width) (amount : Nat) (a : BitVec width) :
    s.within? (amount % width) a = some (s.ofBits amount a) := by
  unfold within?
  rw [if_neg (Nat.not_le.mpr (Nat.mod_lt amount positive))]
  cases s <;> rfl

theorem strictEval_eq (s : Shift) (amount : Int32) (v : Value) : s.strictEval amount v = some (s.eval? amount v) := by
  cases v with
  | void => rfl
  | int32 a =>
    rw [strictEval, within_eq_some s (by decide)]
    rfl
  | int64 a =>
    rw [strictEval, within_eq_some s (by decide)]
    rfl

end Shift

/-- What a frame does with operations that may have no result. -/
abbrev StrictAction (α : Type) := StateT Frame (ExceptT MethodFault Option) α

namespace StrictAction

variable {α β : Type}

def need (value? : Option α) : StrictAction α := fun f => ExceptT.mk (value?.map fun a => .ok (a, f))

def fault (fault : MethodFault) : StrictAction α := fun _ => ExceptT.mk (some (.error fault))

def result : EStateM.Result MethodFault Frame α → Except MethodFault (α × Frame)
  | .ok a f => .ok (a, f)
  | .error fault _ => .error fault

def of (x : FrameAction α) : StrictAction α := fun f => ExceptT.mk (some (result (x f)))

/-- There is a result in every frame, and it is that of the action. -/
def Agrees (x : StrictAction α) (y : FrameAction α) : Prop := ∀ f, (x f).run = some (result (y f))

namespace Agrees

theorem of (y : FrameAction α) : Agrees (StrictAction.of y) y := fun _ => rfl

theorem pure (a : α) : Agrees (Pure.pure a) (Pure.pure a) := fun _ => rfl

theorem fault (fault : MethodFault) : Agrees (StrictAction.fault fault : StrictAction α) (throw fault) := fun _ => rfl

theorem bind {x : StrictAction α} {y : FrameAction α} {k : α → StrictAction β} {l : α → FrameAction β} (first : Agrees x y)
    (rest : ∀ a, Agrees (k a) (l a)) : Agrees (x >>= k) (y >>= l) := by
  intro f
  rw [Step.bind_apply]
  change ((x f) >>= fun p => k p.1 p.2).run = _
  rw [ExceptT.run_bind, first f]
  cases y f with
  | ok a g => exact rest a g
  | error fault g => rfl

theorem get_bind {k : Frame → StrictAction α} {l : Frame → FrameAction α} (rest : ∀ f, Agrees (k f) (l f)) :
    Agrees (get >>= k) (get >>= l) := fun f => rest f f

theorem need {value? : Option α} {a : α} {k : α → StrictAction β} {y : FrameAction β} (found : value? = some a)
    (rest : Agrees (k a) y) : Agrees (StrictAction.need value? >>= k) y := by
  subst found
  exact rest

theorem ite {c : Prop} [Decidable c] {x x' : StrictAction α} {y y' : FrameAction α} (yes : c → Agrees x y)
    (no : ¬ c → Agrees x' y') : Agrees (if c then x else x') (if c then y else y') := by
  by_cases h : c
  · rw [if_pos h, if_pos h]
    exact yes h
  · rw [if_neg h, if_neg h]
    exact no h

end Agrees

open FrameAction

def load (slots : List Value) (index : Nat) : StrictAction Unit := do
  if index < slots.length then of (push (← need slots[index]?)) else fault (.noSlot index slots.length)

/-- The list with another item at an index of it. -/
def replace? (items : List α) (index : Nat) (a : α) : Option (List α) :=
  if index < items.length then some (items.set index a) else none

def store (slots : List Value) (index : Nat) (v : Value) : StrictAction (List Value) :=
  if index < slots.length then need (replace? slots index v) else fault (.noSlot index slots.length)

theorem agrees_load (slots : List Value) (index : Nat) : Agrees (load slots index) (FrameAction.load slots index) := by
  unfold load FrameAction.load
  by_cases inside : index < slots.length
  · rw [if_pos inside]
    refine .need (List.getElem?_eq_getElem inside) ?_
    rw [List.getElem?_eq_getElem inside]
    exact (Agrees.pure _).bind fun v => .of (push v)
  · rw [if_neg inside, List.getElem?_eq_none (Nat.not_lt.mp inside)]
    exact fun _ => rfl

theorem agrees_store (slots : List Value) (index : Nat) (v : Value) :
    Agrees (store slots index v) (FrameAction.store slots index v) := by
  refine .ite (fun inside => ?_) fun _ => .fault _
  unfold replace?
  rw [if_pos inside]
  exact fun _ => rfl

end StrictAction

namespace Instruction

open FrameAction StrictAction

/-- Performs an effect with strict operations, where it has any. -/
def strictPerform (i : Instruction) : Effect → StrictAction Control
  | .loadArgument index? => do
    let index ← of (i.slotIndex index?)
    StrictAction.load (← get).arguments index
    return .next
  | .storeArgument => do
    let index ← of (i.slotIndex none)
    let v ← of pop
    let arguments ← StrictAction.store (← get).arguments index v
    modify ({ · with arguments })
    return .next
  | .loadLocal index? => do
    let index ← of (i.slotIndex index?)
    StrictAction.load (← get).locals index
    return .next
  | .storeLocal index? => do
    let index ← of (i.slotIndex index?)
    let v ← of pop
    let locals ← StrictAction.store (← get).locals index v
    modify ({ · with locals })
    return .next
  | .arithmetic op => do
    let b ← of pop
    let a ← of pop
    let evaluated ← need (op.strictEval a b)
    of (push (← of (orFault (← of (orFault evaluated (.mismatch i.opcode a b))) (.trap i.opcode a b))))
    return .next
  | .shift s => do
    let amount ← of pop
    let v ← of pop
    let amount ← of (orFault amount.int32? (.shiftAmount amount))
    let shifted ← need (s.strictEval amount v)
    of (push (← of (orFault shifted (.shiftOf i.opcode v))))
    return .next
  | .select => do
    let .switch targets := i.operand | fault .noTargets
    let v ← of pop
    match v.int32? with
    | none => return .next
    | some n =>
      if n < 0 then return .next
      else if n.toInt.toNat < targets.length then return .jump (← need targets[n.toInt.toNat]?)
      else return .next
  | effect => of (i.perform effect)

def strictExecute (i : Instruction) : StrictAction Control :=
  match i.opcode.effect? with
  | none => fault (.unsupported i.opcode)
  | some effect => i.strictPerform effect

theorem agrees_perform (i : Instruction) (effect : Effect) : Agrees (i.strictPerform effect) (i.perform effect) := by
  have next : Agrees (return .next : StrictAction Control) (return .next : FrameAction Control) := .pure _
  cases effect with
  | loadArgument index? =>
    exact (Agrees.of _).bind fun index => .get_bind fun f => (agrees_load f.arguments index).bind fun _ => next
  | storeArgument =>
    refine (Agrees.of _).bind fun index => (Agrees.of _).bind fun v => .get_bind fun f => ?_
    exact (agrees_store f.arguments index v).bind fun _ => Agrees.bind (fun _ => rfl) fun _ => next
  | loadLocal index? =>
    exact (Agrees.of _).bind fun index => .get_bind fun f => (agrees_load f.locals index).bind fun _ => next
  | storeLocal index? =>
    refine (Agrees.of _).bind fun index => (Agrees.of _).bind fun v => .get_bind fun f => ?_
    exact (agrees_store f.locals index v).bind fun _ => Agrees.bind (fun _ => rfl) fun _ => next
  | arithmetic op =>
    refine (Agrees.of _).bind fun b => (Agrees.of _).bind fun a => .need (op.strictEval_eq a b) ?_
    exact (Agrees.of _).bind fun _ => (Agrees.of _).bind fun v => (Agrees.of (push v)).bind fun _ => next
  | shift s =>
    refine (Agrees.of _).bind fun amount => (Agrees.of _).bind fun v => (Agrees.of _).bind fun bits => ?_
    exact .need (s.strictEval_eq bits v) ((Agrees.of _).bind fun w => (Agrees.of (push w)).bind fun _ => next)
  | select =>
    obtain ⟨opcode, operand⟩ := i
    cases operand with
    | switch targets =>
      refine (Agrees.of _).bind fun v => ?_
      cases v.int32? with
      | none => exact next
      | some n =>
        refine .ite (fun _ => next) fun _ => ?_
        by_cases inside : n.toInt.toNat < targets.length
        · rw [if_pos inside, List.getElem?_eq_getElem inside]
          exact .need rfl (.pure _)
        · rw [if_neg inside, List.getElem?_eq_none (Nat.not_lt.mp inside)]
          exact next
    | _ => exact .fault _
  | _ => exact .of _

theorem agrees_execute (i : Instruction) : Agrees i.strictExecute i.execute := by
  unfold strictExecute execute
  cases i.opcode.effect? with
  | none => exact .fault _
  | some effect => exact agrees_perform i effect

end Instruction

namespace Module

/-- The method in a row, which is counted from one. -/
def strictMethod? (m : Module) (token : Token) : Option (Option MethodDef) :=
  if token.isIn .methodDef ∧ token.row ≠ 0 then
    (minus token.row 1).map fun index => m.methodList[index]?.map (·.2)
  else some none

def strictEnter (m : Module) (limits : MachineLimits) (token : Token) (arguments : List Value) (depth : Nat) :
    Partly Frame := do
  if limits.depth ≤ depth then throw (.recursionLimit limits.depth)
  let some d := ← Partly.need (m.strictMethod? token) | throw (.machine (.inMethod token.text .notAMethod))
  let name := s!"{d.name}({token.text})"
  let fail (fault : MethodFault) : Error := .machine (.inMethod name fault)
  let signature ← SignatureReader.strictMethod.parse d.signature
  if signature.hasThis then throw (fail .instanceMethod)
  if arguments.length ≠ signature.parameters.length then
    throw (fail (.argumentCount signature.parameters.length arguments.length))
  let some b := d.body? | throw (fail .noBody)
  let locals ← Partly.of (b.locals.mapM (·.initialValue))
  let returnsVoid := signature.returns == .primitive .void
  return { name, code := b.code, returnsVoid, arguments, locals }

/-- The items up to an index of the list or its end, and those from there on. -/
def split? {α : Type} (items : List α) (index : Nat) : Option (List α × List α) :=
  if index ≤ items.length then some (items.take index, items.drop index) else none

/-- The arguments are split off the stack, whose top is its last value here. -/
def strictEnterCall (m : Module) (limits : MachineLimits) (callee : Token) (caller : Frame) (depth : Nat) :
    Partly (Frame × Frame) := do
  let fail (fault : MethodFault) : Error := .machine (.inMethod caller.name fault)
  if !callee.isIn .methodDef then throw (fail (.foreignCall callee))
  let some d := ← Partly.need (m.strictMethod? callee) | throw (fail (.missingCallee callee))
  let count := (← SignatureReader.strictMethod.parse d.signature).parameters.length
  if caller.stack.length < count then throw (fail .underflow)
  let rest ← Partly.need (minus caller.stack.length count)
  let (stack, arguments) ← Partly.need (split? caller.stack.reverse rest)
  let frame ← m.strictEnter limits callee arguments depth
  return (frame, { caller with stack := stack.reverse })

theorem strictMethod?_eq (m : Module) (token : Token) : m.strictMethod? token = some (m.method? token) := by
  unfold strictMethod? method?
  by_cases listed : token.isIn .methodDef = true
  · cases row : token.row with
    | zero => simp [listed, rowOf?]
    | succ index =>
      rw [if_pos ⟨listed, Nat.succ_ne_zero index⟩, if_pos listed, Partly.minus_of_le (Nat.le_add_left 1 index)]
      rfl
  · rw [if_neg fun h => listed h.1, if_neg listed]

theorem gives_enter (m : Module) (limits : MachineLimits) (token : Token) (arguments : List Value) (depth : Nat) :
    (m.strictEnter limits token arguments depth).Gives (m.enter limits token arguments depth) := by
  refine .ite (fun _ => rfl) fun _ => .need (m.strictMethod?_eq token) ?_
  cases m.method? token with
  | none => exact .throw _
  | some d =>
    refine (SignatureReader.agrees_method.parse d.signature).bind fun signature _ => ?_
    refine .ite (fun _ => rfl) fun _ => .ite (fun _ => rfl) fun _ => ?_
    cases d.body? with
    | none => exact .throw _
    | some b => exact (Gives.of _).bind fun _ _ => .pure _

theorem gives_enterCall (m : Module) (limits : MachineLimits) (callee : Token) (caller : Frame) (depth : Nat) :
    (m.strictEnterCall limits callee caller depth).Gives (m.enterCall limits callee caller depth) := by
  refine .ite (fun _ => rfl) fun _ => .need (m.strictMethod?_eq callee) ?_
  cases m.method? callee with
  | none => exact .throw _
  | some d =>
    refine (SignatureReader.agrees_method.parse d.signature).bind fun signature _ => ?_
    refine .ite (fun _ => rfl) fun enough => ?_
    have fits := Nat.not_lt.mp enough
    have rest : caller.stack.length - signature.parameters.length ≤ caller.stack.reverse.length := by
      rw [List.length_reverse]
      exact Nat.sub_le _ _
    refine .need (Partly.minus_of_le fits) (.need (if_pos rest) ?_)
    dsimp only
    rw [← List.reverse_take, List.take_reverse, List.reverse_reverse, Nat.sub_sub_self fits]
    exact (gives_enter m limits callee _ depth).bind fun _ _ => .pure _

end Module

namespace Machine

def strictFollow (m : Module) (limits : MachineLimits) (s : Machine) : Control → Option Progress
  | .call callee => do
    let caller := { s.frame with position := s.frame.position + 1 }
    match ← (m.strictEnterCall limits callee caller (s.callers.length + 1)).run with
    | .error e => return .ended (.error e) s.executed
    | .ok (frame, caller) => return .running ⟨s.executed, frame, caller :: s.callers⟩
  | control => some (s.follow m limits control)

def strictStep (m : Module) (limits : MachineLimits) (s : Machine) : Option Progress :=
  if s.frame.position < s.frame.code.length then do
    let i ← s.frame.code[s.frame.position]?
    let s := { s with executed := s.executed + 1 }
    if 0 < limits.instructions ∧ limits.instructions < s.executed then return s.fail (.budget limits.instructions)
    else
      match ← (i.strictExecute s.frame).run with
      | .error fault => return s.fail fault
      | .ok (control, frame) => ({ s with frame } : Machine).strictFollow m limits control
  else some (s.fail (.offTheEnd s.frame.position))

theorem strictFollow_eq (m : Module) (limits : MachineLimits) (s : Machine) (control : Control) :
    s.strictFollow m limits control = some (s.follow m limits control) := by
  cases control with
  | call callee =>
    unfold strictFollow follow
    dsimp only
    rw [show (m.strictEnterCall limits callee _ _).run = some _ from m.gives_enterCall limits callee _ _]
    cases m.enterCall limits callee _ _ with
    | error e => rfl
    | ok frames => rfl
  | _ => rfl

/-- Every machine takes a strict step, and it is its step. -/
theorem strictStep_eq (m : Module) (limits : MachineLimits) (s : Machine) : s.strictStep m limits = some (s.step m limits) := by
  unfold strictStep step
  by_cases inside : s.frame.position < s.frame.code.length
  · rw [if_pos inside, List.getElem?_eq_getElem inside]
    dsimp only [Option.bind_eq_bind, Option.bind_some]
    split
    · rfl
    · rw [Instruction.agrees_execute]
      cases Instruction.execute _ s.frame with
      | error fault g => rfl
      | ok control g => exact strictFollow_eq m limits _ control
  · rw [if_neg inside, List.getElem?_eq_none (Nat.not_lt.mp inside)]

end Machine

namespace Progress

def strictStart (m : Module) (limits : MachineLimits) (token : Token) (arguments : List Value) (executed : Nat) :
    Option Progress := do
  match ← (m.strictEnter limits token arguments 0).run with
  | .error e => return .ended (.error e) executed
  | .ok frame => return .running ⟨executed, frame, []⟩

def strictRun (m : Module) (limits : MachineLimits) : (fuel : Nat) → Progress → Option (Result Value × Nat)
  | _, ended result executed => some (result, executed)
  | 0, running _ => none
  | fuel + 1, running s => s.strictStep m limits >>= strictRun m limits fuel

theorem strictStart_eq (m : Module) (limits : MachineLimits) (token : Token) (arguments : List Value) (executed : Nat) :
    strictStart m limits token arguments executed = some (start m limits token arguments executed) := by
  unfold strictStart start
  rw [show (m.strictEnter limits token arguments 0).run = some _ from m.gives_enter limits token arguments 0]
  cases m.enter limits token arguments 0 with
  | error e => rfl
  | ok frame => rfl

theorem strictRun_eq (m : Module) (limits : MachineLimits) (fuel : Nat) (x : Progress) :
    x.strictRun m limits fuel = x.run m limits fuel := by
  induction fuel generalizing x with
  | zero => cases x <;> rfl
  | succ fuel ih =>
    cases x with
    | ended result executed => rfl
    | running s =>
      rw [strictRun, run, Machine.strictStep_eq]
      exact ih _

end Progress

end CilWeaver
