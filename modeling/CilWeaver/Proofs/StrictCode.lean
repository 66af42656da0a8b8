import CilWeaver.Instruction.Decode
import CilWeaver.Module.Clause
import CilWeaver.Proofs.ReadBodies
import CilWeaver.Proofs.StrictBodies

/-!
Strict readers of code. Offsets are numbers of 32 bits, and the instruction at an offset is looked for in a slice of
the offsets.
-/

namespace CilWeaver

open Partly (Gives slice narrow)
open StrictReader (Agrees AgreesAt Moves)

/-- The failures of the steps may be changed one by one. -/
theorem Outcome.mapM_mapError {τ σ ε ε' : Type} (f : τ → Except ε σ) (g : ε → ε') (items : List τ) :
    items.mapM (fun t => (f t).mapError g) = (items.mapM f).mapError g := by
  induction items with
  | nil => rfl
  | cons t ts ih =>
    rw [List.mapM_cons, List.mapM_cons, ih]
    cases f t with
    | error e => rfl
    | ok a => cases ts.mapM f <;> rfl

namespace OperandAt

variable {τ σ ε ε' : Type}

theorem mapM_mapError (f : τ → Except ε σ) (g : ε → ε') (operand : OperandAt τ) :
    operand.mapM (fun t => (f t).mapError g) = (operand.mapM f).mapError g := by
  cases operand with
  | target t =>
    change ((f t).mapError g).map target = ((f t).map target).mapError g
    cases f t <;> rfl
  | switch ts =>
    change (ts.mapM fun t => (f t).mapError g).map switch = ((ts.mapM f).map switch).mapError g
    rw [Outcome.mapM_mapError]
    cases ts.mapM f <;> rfl
  | _ => rfl

end OperandAt

theorem InstructionAt.mapM_mapError {τ σ ε ε' : Type} (f : τ → Except ε σ) (g : ε → ε') (i : InstructionAt τ) :
    i.mapM (fun t => (f t).mapError g) = (i.mapM f).mapError g := by
  unfold InstructionAt.mapM
  rw [OperandAt.mapM_mapError]
  cases i.operand.mapM f <;> rfl

namespace Code

def strictReadOperand (literal : Nat → Partly String) (start : Nat) : OperandKind → StrictReader (OperandAt Int)
  | .none => return .none
  | .int8 => do return .int32 (← StrictReader.byte).toInt8.toInt32
  | .uint8 => do return .int32 (.ofNat (← StrictReader.byte).toNat)
  | .int32 => do return .int32 (← StrictReader.u32).toInt32
  | .int64 => do return .int64 (← StrictReader.u64).toInt64
  | .float32 => do return .float32 (← StrictReader.u32)
  | .float64 => do return .float64 (← StrictReader.u64)
  | .shortSlot => do return .slot (← StrictReader.byte).toUInt16
  | .slot => do return .slot (← StrictReader.u16)
  | .token => do return .token ⟨← StrictReader.u32⟩
  | .string => do
    let token : Token := ⟨← StrictReader.u32⟩
    if token.tableNumber != literalTable then StrictReader.malformed (.literalTable start token)
    return .string (← StrictReader.ofPartly (literal token.row))
  | .shortTarget => do
    let distance := (← StrictReader.byte).toInt8.toInt
    return .target ((← StrictReader.position) + distance)
  | .target => do
    let distance := (← StrictReader.u32).toInt32.toInt
    return .target ((← StrictReader.position) + distance)
  | .switch => do
    let count := (← StrictReader.u32).toNat
    if (← StrictReader.remaining) / 4 < count then StrictReader.malformed (.switchSize start count)
    let distances ← StrictReader.times count StrictReader.u32
    let next ← StrictReader.position
    return .switch (distances.map fun d => next + d.toInt32.toInt)

def strictReadOpCode : StrictReader OpCode := do
  let first ← StrictReader.byte
  if first == 0xFE then return ⟨0xFE00 + (← StrictReader.byte).toUInt16⟩
  else return ⟨first.toUInt16⟩

def strictReadRaw (literal : Nat → Partly String) : StrictReader (InstructionAt Int) := do
  let start ← StrictReader.position
  let opcode ← strictReadOpCode
  match opcode.operation? with
  | none => StrictReader.malformed (.undefinedOpcode opcode.value.toNat start)
  | some operation => return ⟨opcode, ← strictReadOperand literal start operation.operand⟩

noncomputable def strictScan (literal : Nat → Partly String) : StrictReader (List (Nat × InstructionAt Int)) :=
  StrictReader.untilEnd do
    let start ← StrictReader.position
    let offset ← StrictReader.need (narrow 32 start)
    return (offset, ← (strictReadRaw literal).mapError (truncatedAt start))

/-- The instruction that starts at the target, of a branch in the instruction with the given index. The first `count`
    of the offsets are those of instructions. -/
def strictResolve (offsets : List Nat) (count index : Nat) (target : Int) : Partly Nat := do
  let starts ← Partly.need (slice offsets 0 count)
  match if target < 0 then none else starts.idxOf? target.toNat with
  | some found => return found
  | none => Partly.malformed (.branchTarget (← Partly.need offsets[index]?) target)

noncomputable def strictDecode (literal : Nat → Partly String) (code : Bytes) : Partly DecodedBody := do
  let scanned ← (strictScan literal).parse code
  let stop ← Partly.need (narrow 32 code.length)
  let offsets := scanned.map (·.1) ++ [stop]
  let instructions ← scanned.zipIdx.mapM fun ((_, raw), index) =>
    Partly.ofCases (raw.mapM fun target => (strictResolve offsets scanned.length index target).cases)
  return ⟨instructions, offsets⟩

theorem agrees_readOperand {strict : Nat → Partly String} {literal : Nat → Result String}
    (literals : ∀ row, (strict row).Gives (literal row)) (start : Nat) (kind : OperandKind) :
    Agrees (strictReadOperand strict start kind) (readOperand literal start kind) := by
  cases kind with
  | none => exact .pure _
  | int8 => exact Agrees.byte.bind fun _ => .pure _
  | uint8 => exact Agrees.byte.bind fun _ => .pure _
  | int32 => exact Agrees.u32.bind fun _ => .pure _
  | int64 => exact Agrees.u64.bind fun _ => .pure _
  | float32 => exact Agrees.u32.bind fun _ => .pure _
  | float64 => exact Agrees.u64.bind fun _ => .pure _
  | shortSlot => exact Agrees.byte.bind fun _ => .pure _
  | slot => exact Agrees.u16.bind fun _ => .pure _
  | token => exact Agrees.u32.bind fun _ => .pure _
  | string => exact Agrees.u32.bind fun _ => .check fun _ => (Agrees.ofPartly (literals _)).bind fun _ => .pure _
  | shortTarget => exact Agrees.byte.bind fun _ => Agrees.position.bind fun _ => .pure _
  | target => exact Agrees.u32.bind fun _ => Agrees.position.bind fun _ => .pure _
  | switch =>
    refine Agrees.u32.bind fun _ => Agrees.remaining.bind fun _ => .check fun _ => ?_
    exact (Agrees.u32.times _).bind fun _ => Agrees.position.bind fun _ => .pure _

theorem moves_readRaw {strict : Nat → Partly String} {literal : Nat → Result String}
    (literals : ∀ row, (strict row).Gives (literal row)) : Moves (strictReadRaw strict) (readRaw literal) := by
  have opcode : Moves strictReadOpCode readOpCode :=
    Moves.byte.bind_left fun _ => .ite (fun _ => Agrees.byte.bind fun _ => .pure _) fun _ => .pure _
  refine .bind_right Agrees.position fun start => opcode.bind_left fun opcode => ?_
  cases opcode.operation? with
  | none => exact .malformed _
  | some operation => exact (agrees_readOperand literals start operation.operand).bind fun _ => .pure _

theorem gives_scan {strict : Nat → Partly String} {literal : Nat → Result String}
    (literals : ∀ row, (strict row).Gives (literal row)) {code : Bytes} (short : code.length < 2 ^ 32) :
    ((strictScan strict).parse code).Gives ((scan literal).parse code) := by
  have raw (start : Nat) := (moves_readRaw literals).mapError (truncatedAt start)
  have moves := Moves.bind_right Agrees.position fun start => (raw start).bind_left fun raw => .pure (start, raw)
  refine AgreesAt.parse (StrictReader.agreesAt_untilEnd (fun position inside => ?_) moves.2 (Nat.zero_le _))
  refine (Agrees.position code position inside).bind fun start stop _ within run => ?_
  cases run
  have narrow : narrow 32 position = some position := Partly.narrow_of_lt (Nat.lt_of_le_of_lt inside short)
  exact .need narrow (((raw position).1.bind fun raw => .pure (position, raw)) code position inside)

theorem gives_resolve {starts : List Nat} {start index : Nat} (stop : Nat) (target : Int) (found : starts[index]? = some start) :
    (strictResolve (starts ++ [stop]) starts.length index target).Gives (resolve starts start target) := by
  have front : slice (starts ++ [stop]) 0 starts.length = some starts := by
    rw [Partly.slice_of_le (Nat.zero_le _) (by rw [List.length_append]; omega), List.drop_zero, Nat.sub_zero, List.take_left]
  have entry : (starts ++ [stop])[index]? = some start := by
    rw [List.getElem?_append_left (List.getElem?_eq_some_iff.mp found).1, found]
  refine .need front ?_
  unfold resolve
  cases (if target < 0 then none else starts.idxOf? target.toNat) with
  | some index => exact .pure _
  | none => exact .need entry (.malformed _)

theorem gives_decode {strict : Nat → Partly String} {literal : Nat → Result String}
    (literals : ∀ row, (strict row).Gives (literal row)) {code : Bytes} (short : code.length < 2 ^ 32) :
    (strictDecode strict code).Gives (decode literal code) := by
  refine (gives_scan literals short).bind fun scanned _ => .need (Partly.narrow_of_lt short) ?_
  refine (Gives.mapM_zipIdx ?_).bind fun _ _ => .pure _
  rintro ⟨start, raw⟩ index found
  have entry : (scanned.map (·.1))[index]? = some start := by rw [List.getElem?_map, found]; rfl
  refine .ofCases ?_
  have resolved (target : Int) := (gives_resolve code.length target entry).cases
  rw [List.length_map] at resolved
  rw [Nat.zero_add, ← InstructionAt.mapM_mapError]
  simp only [resolved]

end Code

namespace DecodedBody

def strictIndexOf? (b : DecodedBody) (offset : Nat) : Option (Option Nat) := do
  return (← slice b.offsets 0 b.code.length).idxOf? offset

/-- There is an offset for each instruction at least. -/
def Full (b : DecodedBody) : Prop := b.code.length ≤ b.offsets.length

theorem full_of_decode {literal : Nat → Result String} {bytes : Bytes} {b : DecodedBody}
    (decoded : Code.decode literal bytes = .ok b) : b.Full := by
  have length := Code.length_offsets_of_decode decoded
  unfold Full
  omega

theorem Full.strictIndexOf? {b : DecodedBody} (full : b.Full) (offset : Nat) :
    b.strictIndexOf? offset = some (b.indexOf? offset) := by
  unfold DecodedBody.strictIndexOf?
  rw [Partly.slice_of_le (Nat.zero_le _) full]
  rfl

end DecodedBody

namespace Region

def strictStartOf (decoded : DecodedBody) (method : String) (offset : UInt32) : Partly Nat := do
  match ← Partly.need (decoded.strictIndexOf? offset.toNat) with
  | some index => return index
  | none => Partly.malformed (.regionStart method offset.toNat)

def strictKindOf (contains : Token → Bool) (decoded : DecodedBody) (method : String) (c : Clause) : Partly RegionKind :=
  match c.flags with
  | ⟨false, false, false⟩ =>
    let type : Token := ⟨c.argument⟩
    if catchTables.any type.isIn && contains type then return .catches type
    else Partly.malformed (.catchDangling method type)
  | ⟨true, false, false⟩ => do return .filter (← strictStartOf decoded method c.argument)
  | ⟨false, true, false⟩ => return .cleanup
  | ⟨false, false, true⟩ => return .fault
  | flags => Partly.malformed (.regionKind method flags.number)

def strictOfClause (contains : Token → Bool) (decoded : DecodedBody) (method : String) (c : Clause) : Partly Region := do
  let kind ← strictKindOf contains decoded method c
  return {
    kind
    tryStart := ← strictStartOf decoded method c.tryOffset
    tryEnd := ← Partly.of (endOf decoded method c.tryOffset c.tryLength)
    handlerStart := ← strictStartOf decoded method c.handlerOffset
    handlerEnd := ← Partly.of (endOf decoded method c.handlerOffset c.handlerLength) }

theorem gives_startOf {decoded : DecodedBody} (full : decoded.Full) (method : String) (offset : UInt32) :
    (strictStartOf decoded method offset).Gives (startOf decoded method offset) := by
  refine .need (full.strictIndexOf? offset.toNat) ?_
  unfold startOf
  cases decoded.indexOf? offset.toNat with
  | some index => exact .pure _
  | none => exact .malformed _

theorem gives_ofClause {decoded : DecodedBody} (full : decoded.Full) (contains : Token → Bool) (method : String) (c : Clause) :
    (strictOfClause contains decoded method c).Gives (ofClause contains decoded method c) := by
  have start := gives_startOf full method
  have kind : (strictKindOf contains decoded method c).Gives (kindOf contains decoded method c) := by
    unfold strictKindOf kindOf
    generalize c.flags = flags
    match flags with
    | ⟨false, false, false⟩ => exact .ite (fun _ => .pure _) fun _ => .malformed _
    | ⟨true, false, false⟩ => exact (start _).bind fun _ _ => .pure _
    | ⟨false, true, false⟩ | ⟨false, false, true⟩ => exact .pure _
    | ⟨true, true, _⟩ | ⟨true, false, true⟩ | ⟨false, true, true⟩ => exact .malformed _
  refine kind.bind fun _ _ => (start _).bind fun _ _ => (Gives.of _).bind fun _ _ => (start _).bind fun _ _ => ?_
  exact (Gives.of _).bind fun _ _ => .pure _

end Region

end CilWeaver
