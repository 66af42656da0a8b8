import CilWeaver.Instruction.Decode
import CilWeaver.Proofs.Promotion
import CilWeaver.Proofs.Reads

/-!
The bytes of code. They are a function of the instructions, of the layout and of the indices that its
string literals have been given, and the decoder reads the instructions from them. A distance is stored
modulo a power of two, so the decoder sees other targets than the ones that were meant when a distance
does not fit; in code of less than four gigabytes such a target never is the start of an instruction.
-/

namespace CilWeaver

namespace Reader

/-- The signed number in one byte. -/
theorem reads_int8 (n : Int) (position : Nat) :
    ∃ b, Reads byte position (leIntBytes 1 n) b ∧ b.toInt8.toInt = n.bmod 256 := by
  have read : Reads byte position (leIntBytes 1 n) (UInt8.ofNat (n % 256 ^ 1).toNat) :=
    reads_byte position _
  refine ⟨_, read, ?_⟩
  have nonneg : (((n % 256 ^ 1).toNat : Nat) : Int) = n % 256 := by omega
  rw [UInt8.toInt8_ofNat', Int8.toInt_ofNat', nonneg]
  exact Int.emod_bmod n 256

/-- The signed number in four bytes. -/
theorem reads_int32 (n : Int) (position : Nat) :
    ∃ v, Reads u32 position (leIntBytes 4 n) v ∧ v.toInt32.toInt = n.bmod (2 ^ 32) := by
  have bound : (n % 256 ^ 4).toNat < 2 ^ 32 := by omega
  refine ⟨_, reads_u32_ofNat bound position, ?_⟩
  have nonneg : (((n % 256 ^ 4).toNat : Nat) : Int) = n % ((2 ^ 32 : Nat) : Int) := by omega
  rw [UInt32.toInt32_ofNat', Int32.toInt_ofNat', nonneg]
  exact Int.emod_bmod n (2 ^ 32)

theorem reads_u32_leIntBytes (v : Int32) (position : Nat) :
    ∃ u, Reads u32 position (leIntBytes 4 v.toInt) u ∧ u.toInt32 = v := by
  obtain ⟨u, read, same⟩ := reads_int32 v.toInt position
  refine ⟨u, read, Int32.toInt_inj.mp ?_⟩
  rw [same]
  have low := v.le_toInt
  have high := v.toInt_lt
  exact Int.bmod_eq_of_le (by omega) (by omega)

theorem reads_u64_leIntBytes (v : Int64) (position : Nat) :
    ∃ u, Reads u64 position (leIntBytes 8 v.toInt) u ∧ u.toInt64 = v := by
  refine ⟨v.toUInt64, ?_, rfl⟩
  have low := v.le_toInt
  have high := v.toInt_lt
  have number : (v.toInt % 256 ^ 8).toNat = v.toUInt64.toNat := by
    have bits : v.toUInt64.toNat = v.toBitVec.toNat := rfl
    have signed : v.toInt = v.toBitVec.toInt := rfl
    rw [bits, signed, BitVec.toInt_eq_toNat_bmod]
    have bound := v.toBitVec.isLt
    have same : ((v.toBitVec.toNat : Int).bmod (2 ^ 64)) % ((2 ^ 64 : Nat) : Int) =
        (v.toBitVec.toNat : Int) % ((2 ^ 64 : Nat) : Int) := Int.bmod_emod
    omega
  rw [leIntBytes, number]
  exact reads_u64 position v.toUInt64

end Reader

/-- The literal of an operand, which has no other. -/
def OperandAt.literals {τ : Type} : OperandAt τ → List String
  | .string text => [text]
  | _ => []

namespace Code

open Reader Instruction Step

/-! The decoder -/

/-- The target that the decoder sees of an instruction that ends at `next`. -/
def seen (kind : OperandKind) (offsets : Array Nat) (next target : Nat) : Int :=
  next + (distance offsets next target).bmod (if kind = .shortTarget then 256 else 2 ^ 32)

/-- What an operand is for the decoder. -/
def ReadsOperand (lookup : Nat → Result String) (kind : OperandKind) (offsets : Array Nat) (next : Nat)
    (operand : Operand) (bytes : Bytes) : Prop :=
  ∀ start position, position + bytes.length = next →
    Reads (readOperand lookup start kind) position bytes (operand.map (seen kind offsets next))

theorem readsOperand_int8 {lookup : Nat → Result String} {offsets : Array Nat} {next : Nat} {v : Int32}
    (low : -128 ≤ v) (high : v ≤ 127) :
    ReadsOperand lookup .int8 offsets next (.int32 v) (leIntBytes 1 v.toInt) := by
  intro start position _
  obtain ⟨b, read, same⟩ := reads_int8 v.toInt position
  have bounds : -128 ≤ v.toInt ∧ v.toInt ≤ 127 :=
    ⟨Int32.le_iff_toInt_le.mp low, Int32.le_iff_toInt_le.mp high⟩
  have value : b.toInt8.toInt32 = v := by
    rw [← Int32.toInt_inj, Int8.toInt_toInt32, same]
    exact Int.bmod_eq_of_le (by omega) (by omega)
  have result := read.map fun b => (OperandAt.int32 b.toInt8.toInt32 : OperandAt Int)
  rw [value] at result
  exact result

theorem readsOperand_uint8 {lookup : Nat → Result String} {offsets : Array Nat} {next : Nat} {v : Int32}
    (low : 0 ≤ v) (high : v ≤ 255) :
    ReadsOperand lookup .uint8 offsets next (.int32 v) (leIntBytes 1 v.toInt) := by
  intro start position _
  have bounds : 0 ≤ v.toInt ∧ v.toInt ≤ 255 :=
    ⟨Int32.le_iff_toInt_le.mp low, Int32.le_iff_toInt_le.mp high⟩
  have value : Int32.ofNat (UInt8.ofNat (v.toInt % 256 ^ 1).toNat).toNat = v := by
    rw [← Int32.toInt_inj, Int32.toInt_ofNat', UInt8.toNat_ofNat']
    have same : (((v.toInt % 256 ^ 1).toNat % 2 ^ 8 : Nat) : Int) = v.toInt := by omega
    rw [same]
    exact Int.bmod_eq_of_le (by simp [Int32.size]; omega) (by simp [Int32.size]; omega)
  have result := (reads_byte_ofNat (v.toInt % 256 ^ 1).toNat position).map
    fun b => (OperandAt.int32 (.ofNat b.toNat) : OperandAt Int)
  rw [value] at result
  exact result

theorem readsOperand_int32 {lookup : Nat → Result String} {offsets : Array Nat} {next : Nat} (v : Int32) :
    ReadsOperand lookup .int32 offsets next (.int32 v) (leIntBytes 4 v.toInt) := by
  intro start position _
  obtain ⟨u, read, same⟩ := reads_u32_leIntBytes v position
  have result := read.map fun u => (OperandAt.int32 u.toInt32 : OperandAt Int)
  rw [same] at result
  exact result

theorem readsOperand_int64 {lookup : Nat → Result String} {offsets : Array Nat} {next : Nat} (v : Int64) :
    ReadsOperand lookup .int64 offsets next (.int64 v) (leIntBytes 8 v.toInt) := by
  intro start position _
  obtain ⟨u, read, same⟩ := reads_u64_leIntBytes v position
  have result := read.map fun u => (OperandAt.int64 u.toInt64 : OperandAt Int)
  rw [same] at result
  exact result

theorem readsOperand_shortSlot {lookup : Nat → Result String} {offsets : Array Nat} {next : Nat}
    {slot : UInt16} (small : slot ≤ 0xFF) :
    ReadsOperand lookup .shortSlot offsets next (.slot slot) (leBytes 1 slot.toNat) := by
  intro start position _
  have bound : slot.toNat ≤ 255 := UInt16.le_iff_toNat_le.mp small
  have value : (UInt8.ofNat slot.toNat).toUInt16 = slot := by
    apply UInt16.toNat.inj
    rw [UInt8.toNat_toUInt16, UInt8.toNat_ofNat']
    omega
  have result := (reads_byte_ofNat slot.toNat position).map fun b => (OperandAt.slot b.toUInt16 : OperandAt Int)
  rw [value] at result
  exact result

theorem readsOperand_string {lookup : Nat → Result String} {offsets : Array Nat} {next index : Nat}
    {text : String} (small : index ≤ 0xFFFFFF) (found : lookup index = .ok text) :
    ReadsOperand lookup .string offsets next (.string text) (leBytes 4 (0x70000000 + index)) := by
  intro start position _
  have value : (UInt32.ofNat (0x70000000 + index)).toNat = 0x70000000 + index := by
    rw [UInt32.toNat_ofNat']
    omega
  have table : (Token.tableNumber ⟨UInt32.ofNat (0x70000000 + index)⟩ != literalTable) = false := by
    rw [bne_eq_false_iff_eq, Token.tableNumber, literalTable, value]
    omega
  have row : Token.row ⟨UInt32.ofNat (0x70000000 + index)⟩ = index := by
    rw [Token.row, value]
    omega
  rw [← List.append_nil (leBytes 4 _)]
  refine (reads_u32_ofNat (show 0x70000000 + index < 2 ^ 32 by omega) position).bind ?_
  simp only [table, Bool.false_eq_true, ↓reduceIte, row]
  exact (reads_ofResult found _).map OperandAt.string

theorem readsOperand_shortTarget {lookup : Nat → Result String} (offsets : Array Nat) (next target : Nat) :
    ReadsOperand lookup .shortTarget offsets next (.target target)
      (leIntBytes 1 (distance offsets next target)) := by
  intro start position ends
  obtain ⟨b, read, same⟩ := reads_int8 (distance offsets next target) position
  have last := (reads_position next).map fun place => OperandAt.target ((place : Int) + b.toInt8.toInt)
  rw [← List.append_nil (leIntBytes 1 _), OperandAt.map, seen, if_pos rfl, ← same]
  refine read.bind ?_
  rw [ends]
  exact last

theorem readsOperand_target {lookup : Nat → Result String} (offsets : Array Nat) (next target : Nat) :
    ReadsOperand lookup .target offsets next (.target target)
      (leIntBytes 4 (distance offsets next target)) := by
  intro start position ends
  obtain ⟨u, read, same⟩ := reads_int32 (distance offsets next target) position
  have last := (reads_position next).map fun place => OperandAt.target ((place : Int) + u.toInt32.toInt)
  rw [← List.append_nil (leIntBytes 4 _), OperandAt.map, seen, if_neg (by decide), ← same]
  refine read.bind ?_
  rw [ends]
  exact last

theorem reads_distances (distances : List Int) (position : Nat) :
    ∃ numbers, ReadsAll u32 position (distances.flatMap (leIntBytes 4)) numbers ∧
      numbers.map (·.toInt32.toInt) = distances.map (·.bmod (2 ^ 32)) := by
  induction distances generalizing position with
  | nil => exact ⟨[], .nil position, rfl⟩
  | cons d distances ih =>
    obtain ⟨u, read, same⟩ := reads_int32 d position
    obtain ⟨numbers, others, all⟩ := ih (position + (leIntBytes 4 d).length)
    refine ⟨u :: numbers, .cons read others, ?_⟩
    rw [List.map_cons, List.map_cons, same, all]

theorem length_flatMap_leIntBytes (distances : List Int) :
    (distances.flatMap (leIntBytes 4)).length = 4 * distances.length := by
  induction distances with
  | nil => rfl
  | cons d distances ih =>
    rw [List.flatMap_cons, List.length_append, ih, length_leIntBytes, List.length_cons]
    omega

/-- A jump table is read when its size fits the field of the size. -/
theorem readsOperand_switch {lookup : Nat → Result String} (offsets : Array Nat) (next : Nat)
    {targets : List Nat} (few : targets.length < 2 ^ 32) :
    ReadsOperand lookup .switch offsets next (.switch targets)
      (leBytes 4 targets.length ++
        (targets.map (distance offsets next)).flatMap (leIntBytes 4)) := by
  intro start position ends rest
  have count : (UInt32.ofNat targets.length).toNat = targets.length := by
    rw [UInt32.toNat_ofNat', Nat.mod_eq_of_lt few]
  have size := length_flatMap_leIntBytes (targets.map (distance offsets next))
  rw [List.length_map] at size
  rw [List.length_append, length_leBytes, size] at ends ⊢
  obtain ⟨numbers, read, same⟩ := reads_distances (targets.map (distance offsets next)) (position + 4)
  have length : numbers.length = targets.length := by
    have lengths := congrArg List.length same
    simpa using lengths
  have table := read.times
  rw [length] at table
  have first := reads_u32_ofNat few position
    ((targets.map (distance offsets next)).flatMap (leIntBytes 4) ++ rest)
  rw [length_leBytes] at first
  simp only [readOperand]
  rw [List.append_assoc, bind_of_ok first]
  have ahead : remaining ⟨position + 4, (targets.map (distance offsets next)).flatMap (leIntBytes 4) ++ rest⟩ =
      .ok (4 * targets.length + rest.length)
        ⟨position + 4, (targets.map (distance offsets next)).flatMap (leIntBytes 4) ++ rest⟩ := by
    rw [remaining, List.length_append, size]
  have enough : ¬ (4 * targets.length + rest.length) / 4 < targets.length := by omega
  rw [bind_of_ok ahead, count, if_neg enough, bind_of_ok (table rest), size]
  have values : (numbers.map fun d => (next : Int) + d.toInt32.toInt) =
      targets.map (seen .switch offsets next) := by
    have both := congrArg (List.map fun d => (next : Int) + d) same
    rw [List.map_map, List.map_map, List.map_map] at both
    exact both
  have stop : position + 4 + 4 * targets.length = next := by omega
  rw [stop, bind_of_ok (show Reader.position ⟨next, rest⟩ = .ok next ⟨next, rest⟩ from rfl), values]
  have total : position + (4 + 4 * targets.length) = next := by omega
  rw [total]
  rfl

/-- The bytes of an operand. Its targets are at distances, and its literal has an index. -/
def operandBytes {τ : Type} (kind : OperandKind) (distance : τ → Int) (index : Nat) : OperandAt τ → Bytes
  | .none => []
  | .int32 v => leIntBytes (if kind = .int32 then 4 else 1) v.toInt
  | .int64 v => leIntBytes 8 v.toInt
  | .float32 bits => u32Bytes bits
  | .float64 bits => u64Bytes bits
  | .slot i => leBytes (if kind = .slot then 2 else 1) i.toNat
  | .token t => u32Bytes t.value
  | .string _ => leBytes 4 (0x70000000 + index)
  | .target t => leIntBytes (if kind = .target then 4 else 1) (distance t)
  | .switch ts => leBytes 4 ts.length ++ (ts.map distance).flatMap (leIntBytes 4)

/-- The look-up answers the texts at the indices. -/
def Names (lookup : Nat → Result String) (indices : List Nat) (texts : List String) : Prop :=
  List.Forall₂ (fun index text => lookup index = .ok text) indices texts

/-- The layout counts with the size of the operand. -/
theorem length_operandBytes {i : Instruction} (fits : operandFits i.opcode.operandKind i.operand = true)
    (distance : Nat → Int) (index : Nat) :
    (operandBytes i.opcode.operandKind distance index i.operand).length = i.operandSize := by
  obtain ⟨opcode, operand⟩ := i
  unfold Instruction.operandSize
  dsimp only at fits ⊢
  generalize opcode.operandKind = kind at fits ⊢
  unfold operandFits at fits
  split at fits
  case h_14 targets =>
    rw [operandBytes, List.length_append, length_leBytes, length_flatMap_leIntBytes, List.length_map]
  case h_15 => cases fits
  all_goals simp [operandBytes, u32Bytes, u64Bytes, OperandKind.size?]

theorem readsOperand_operandBytes {lookup : Nat → Result String} {kind : OperandKind} {offsets : Array Nat} {next : Nat}
    {operand : Operand} {indices : List Nat} (fits : operandFits kind operand = true)
    (names : Names lookup indices operand.literals) (placed : ∀ index ∈ indices, index ≤ 0xFFFFFF)
    (small : (operandBytes kind (distance offsets next) (indices.headD 0) operand).length < 2 ^ 32) :
    ReadsOperand lookup kind offsets next operand
      (operandBytes kind (distance offsets next) (indices.headD 0) operand) := by
  unfold operandFits at fits
  split at fits
  · exact fun _ position _ => reads_pure position _
  · simp only [Bool.and_eq_true, decide_eq_true_eq] at fits
    exact readsOperand_int8 fits.1 fits.2
  · simp only [Bool.and_eq_true, decide_eq_true_eq] at fits
    exact readsOperand_uint8 fits.1 fits.2
  · exact readsOperand_int32 _
  · exact readsOperand_int64 _
  · exact fun _ position _ => (reads_u32 position _).map _
  · exact fun _ position _ => (reads_u64 position _).map _
  · exact readsOperand_shortSlot (of_decide_eq_true fits)
  · exact fun _ position _ => (reads_u16 position _).map _
  · exact fun _ position _ => (reads_u32 position _).map fun v => OperandAt.token ⟨v⟩
  · cases names with
    | cons first _ => exact readsOperand_string (placed _ List.mem_cons_self) first
  · exact readsOperand_shortTarget offsets next _
  · exact readsOperand_target offsets next _
  · rename_i targets
    unfold operandBytes at small ⊢
    have size := length_flatMap_leIntBytes (targets.map (distance offsets next))
    rw [List.length_append, length_leBytes, size, List.length_map] at small
    exact readsOperand_switch offsets next (by omega)
  · cases fits

theorem reads_opcode {o : OpCode} {operation : Operation} (defined : o.operation? = some operation)
    (position : Nat) : Reads readOpCode position o.bytes o := by
  have all : ∀ operation ∈ OpCode.catalogue, ∀ o ∈ [(⟨UInt16.ofNat operation.code⟩ : OpCode)],
      (o.bytes = [o.value.toUInt8] ∧ o.value.toUInt8 ≠ 0xFE ∧ o.value.toUInt8.toUInt16 = o.value) ∨
      (o.bytes = [0xFE, o.value.toUInt8] ∧ 0xFE00 + o.value.toUInt8.toUInt16 = o.value) := by
    decide +kernel
  obtain ⟨member, same⟩ := OpCode.operation?_mem defined
  rcases all operation member o (by rw [List.mem_singleton]; exact same) with
    ⟨bytes, single, value⟩ | ⟨bytes, value⟩
  · have first : (o.value.toUInt8 == 0xFE) = false := beq_eq_false_iff_ne.mpr single
    have read : Reads readOpCode position [o.value.toUInt8] ⟨o.value.toUInt8.toUInt16⟩ := by
      refine reads_byte_bind ?_
      simp only [first, Bool.false_eq_true, ↓reduceIte]
      exact reads_pure _ _
    rw [value] at read
    rw [bytes]
    exact read
  · have read : Reads readOpCode position [0xFE, o.value.toUInt8] ⟨0xFE00 + o.value.toUInt8.toUInt16⟩ := by
      refine reads_byte_bind ?_
      simp only [beq_self_eq_true, ↓reduceIte]
      exact (reads_byte _ _).map fun b : UInt8 => (⟨0xFE00 + b.toUInt16⟩ : OpCode)
    rw [value] at read
    rw [bytes]
    exact read

/-- The instruction is one that the encoder accepts, apart from its targets. -/
def WellFormed (i : Instruction) : Prop :=
  ∃ operation, i.opcode.operation? = some operation ∧ operandFits operation.operand i.operand = true

theorem WellFormed.fits {i : Instruction} (h : WellFormed i) :
    operandFits i.opcode.operandKind i.operand = true := by
  obtain ⟨operation, defined, fits⟩ := h
  rw [OpCode.operandKind_of_operation? defined]
  exact fits

/-- The instruction that the decoder sees at `start`, with its targets as positions. -/
def seenAt (offsets : Array Nat) (start : Nat) (i : Instruction) : InstructionAt Int :=
  i.map (seen i.opcode.operandKind offsets (start + i.size))

theorem reads_readRaw {lookup : Nat → Result String} {offsets : Array Nat} {start : Nat} {i : Instruction}
    {operand : Bytes} (wellFormed : WellFormed i) (size : operand.length = i.operandSize)
    (stores : ReadsOperand lookup i.opcode.operandKind offsets (start + i.size) i.operand operand) :
    Reads (readRaw lookup) start (i.opcode.bytes ++ operand) (seenAt offsets start i) := by
  obtain ⟨operation, defined, -⟩ := wellFormed
  unfold readRaw
  refine (reads_position start).bind_nil ((reads_opcode defined start).bind ?_)
  simp only [defined]
  rw [OpCode.operandKind_of_operation? defined] at stores
  have ends : start + i.opcode.bytes.length + operand.length = start + i.size := by
    rw [OpCode.length_bytes, size, Instruction.size, Nat.add_assoc]
  have read := (stores start _ ends).map fun operand => (⟨i.opcode, operand⟩ : InstructionAt Int)
  rw [seenAt, InstructionAt.map, OpCode.operandKind_of_operation? defined]
  exact read

/-- What the decoder sees of code that starts at `start`. -/
def scannedFrom (offsets : Array Nat) : (start : Nat) → List Instruction → List (Nat × InstructionAt Int)
  | _, [] => []
  | start, i :: code => (start, seenAt offsets start i) :: scannedFrom offsets (start + i.size) code

def codeSize (code : List Instruction) : Nat := (code.map Instruction.size).sum

/-- The step of the decoder. -/
def scanStep (lookup : Nat → Result String) : Reader (Nat × InstructionAt Int) := do
  let start ← Reader.position
  return (start, ← (readRaw lookup).mapError (truncatedAt start))

theorem offsetsFrom_eq_cons (start : Nat) (code : List Instruction) :
    offsetsFrom start code = start :: (offsetsFrom start code).tail := by
  cases code <;> rfl

/-! The encoder -/

/-- A body whose instructions the encoder accepts, and whose targets are instructions of it. -/
structure Valid (code : List Instruction) : Prop where
  wellFormed : ∀ i ∈ code, WellFormed i
  targets : ∀ i ∈ code, ∀ t ∈ i.targets, t < code.length

theorem check_eq_ok {count index : Nat} {i : Instruction} :
    Instruction.check count index i = .ok () ↔ WellFormed i ∧ ∀ t ∈ i.targets, t < count := by
  unfold Instruction.check WellFormed
  cases defined : i.opcode.operation? with
  | none => simp
  | some operation =>
    cases fits : operandFits operation.operand i.operand with
    | false => simp [fits]
    | true =>
      simp only [Bool.not_true, Bool.false_eq_true, ↓reduceIte, Option.some.injEq, exists_eq_left', fits,
        true_and]
      cases outside : i.targets.find? (count ≤ ·) with
      | none =>
        rw [List.find?_eq_none] at outside
        simpa using outside
      | some target =>
        have far := List.find?_some outside
        rw [decide_eq_true_eq] at far
        have member := List.mem_of_find?_eq_some outside
        constructor
        · intro h
          split at h <;> simp_all
        · intro inside
          have near := inside target member
          omega

theorem valid_of_check {code : List Instruction} : check code = .ok () ↔ Valid code := by
  have each : check code = .ok () ↔ ∀ i ∈ code, WellFormed i ∧ ∀ t ∈ i.targets, t < code.length := by
    unfold check
    constructor
    · intro h i member
      obtain ⟨units, all, -⟩ := Outcome.map_eq_ok.mp h
      obtain ⟨index, bound, rfl⟩ := List.getElem_of_mem member
      obtain ⟨result, -, checked⟩ := forall₂_of_mem (Outcome.mapM_eq_ok.mp all)
        (show (code[index], index) ∈ code.zipIdx by
          rw [List.mem_zipIdx_iff_getElem?]
          exact List.getElem?_eq_getElem bound)
      exact check_eq_ok.mp checked
    · intro all
      refine Outcome.map_eq_ok.mpr ⟨code.zipIdx.map fun _ => (), Outcome.mapM_eq_ok.mpr ?_, rfl⟩
      rw [List.forall₂_map_right_iff, List.forall₂_same]
      rintro ⟨i, index⟩ member
      exact check_eq_ok.mpr (all i (List.fst_mem_of_mem_zipIdx member))
  rw [each]
  exact ⟨fun all => ⟨fun i member => (all i member).1, fun i member => (all i member).2⟩,
    fun valid i member => ⟨valid.wellFormed i member, valid.targets i member⟩⟩

theorem WellFormed.widened {before after : Instruction} (h : Widened before after)
    (wellFormed : WellFormed before) : WellFormed after := by
  rcases h with rfl | ⟨short, ⟨target, operand⟩, rfl⟩
  · exact wellFormed
  · obtain ⟨-, operation, defined, kind⟩ := long_of_short short
    refine ⟨operation, defined, ?_⟩
    rw [kind, Instruction.long, operand]
    rfl

theorem Valid.widened {code final : List Instruction} (valid : Valid code)
    (widened : List.Forall₂ Widened code final) : Valid final := by
  have length := widened.length_eq
  constructor
  · intro after member
    obtain ⟨before, hb, related⟩ := forall₂_of_mem widened.flip member
    exact (valid.wellFormed before hb).widened related
  · intro after member
    obtain ⟨before, hb, related⟩ := forall₂_of_mem widened.flip member
    rw [InstructionAt.targets, Widened.operand_eq related, ← length]
    exact valid.targets before hb

theorem Valid.promote {code : List Instruction} (valid : Valid code) : Valid (promote code) :=
  valid.widened (widened_promote code)

theorem encodeOperand_eq_ok {σ : Type} {literal : String → EStateM Error σ Nat} {context : String}
    {offsets : Array Nat} {next : Nat} {kind : OperandKind} {operand : Operand} {bytes : Bytes} {s s' : σ} :
    encodeOperand literal context offsets next kind operand s = .ok bytes s' ↔
      ∃ indices, operand.literals.mapM literal s = .ok indices s' ∧ (∀ index ∈ indices, index ≤ 0xFFFFFF) ∧
        bytes = operandBytes kind (distance offsets next) (indices.headD 0) operand := by
  have plain : ∀ own : Bytes, (pure own : EStateM Error σ Bytes) s = .ok bytes s' ↔
      ∃ indices, ([] : List String).mapM literal s = .ok indices s' ∧ (∀ index ∈ indices, index ≤ 0xFFFFFF) ∧
        bytes = own := by
    intro own
    rw [List.mapM_nil, pure_eq_ok]
    constructor
    · rintro ⟨rfl, rfl⟩
      exact ⟨[], rfl, List.forall_mem_nil _, rfl⟩
    · rintro ⟨indices, found, -, rfl⟩
      exact ⟨rfl, (pure_eq_ok.mp found).2⟩
  cases operand with
  | string text =>
    rw [encodeOperand, OperandAt.literals, bind_eq_ok]
    constructor
    · rintro ⟨index, s₁, found, rest⟩
      split at rest
      · exact absurd rest throw_ne_ok
      · rename_i small
        obtain ⟨rfl, rfl⟩ := pure_eq_ok.mp rest
        exact ⟨[index], by rw [List.mapM_cons, bind_of_ok found]; rfl, by simpa using small, rfl⟩
    · rintro ⟨indices, found, small, rfl⟩
      rw [List.mapM_cons] at found
      obtain ⟨index, s₁, one, rest⟩ := bind_eq_ok.mp found
      cases rest
      refine ⟨index, s', one, ?_⟩
      rw [if_neg (Nat.not_lt.mpr (small index List.mem_cons_self))]
      rfl
  | switch ts =>
    have table : encodeOperand literal context offsets next kind (.switch ts) =
        pure (operandBytes kind (distance offsets next) 0 (.switch ts)) := by
      unfold encodeOperand operandBytes
      dsimp only
      rw [List.flatMap_map]
    rw [table]
    exact plain _
  | _ => exact plain _

def literals (code : List Instruction) : List String := code.flatMap (·.operand.literals)

/-- The bytes of code that starts at `start`. -/
def codeBytes (offsets : Array Nat) : (start : Nat) → List Instruction → (indices : List Nat) → Bytes
  | _, [], _ => []
  | start, i :: code, indices =>
    let count := i.operand.literals.length
    i.opcode.bytes ++
      operandBytes i.opcode.operandKind (distance offsets (start + i.size)) ((indices.take count).headD 0) i.operand ++
      codeBytes offsets (start + i.size) code (indices.drop count)

theorem length_of_mapM {σ ε α β : Type} {f : α → EStateM ε σ β} {items : List α} {results : List β} {s s' : σ}
    (run : items.mapM f s = .ok results s') : results.length = items.length := by
  induction items generalizing results s with
  | nil =>
    rw [List.mapM_nil] at run
    cases run
    rfl
  | cons a items ih =>
    rw [List.mapM_cons] at run
    obtain ⟨b, s₁, first, run⟩ := bind_eq_ok.mp run
    obtain ⟨bs, s₂, others, last⟩ := bind_eq_ok.mp run
    obtain ⟨rfl, rfl⟩ := pure_eq_ok.mp last
    rw [List.length_cons, List.length_cons, ih others]

theorem mapM_append_eq_ok {σ ε α β : Type} {f : α → EStateM ε σ β} {front back : List α} {results : List β} {s s' : σ} :
    (front ++ back).mapM f s = .ok results s' ↔
      ∃ first s₁ others, front.mapM f s = .ok first s₁ ∧ back.mapM f s₁ = .ok others s' ∧ results = first ++ others := by
  rw [List.mapM_append, bind_eq_ok]
  constructor
  · rintro ⟨first, s₁, one, rest⟩
    obtain ⟨others, s₂, two, last⟩ := bind_eq_ok.mp rest
    obtain ⟨rfl, rfl⟩ := pure_eq_ok.mp last
    exact ⟨first, s₁, others, one, two, rfl⟩
  · rintro ⟨first, s₁, others, one, two, rfl⟩
    exact ⟨first, s₁, one, bind_eq_ok.mpr ⟨others, s', two, rfl⟩⟩

theorem encodeInstructions_eq_ok {σ : Type} {literal : String → EStateM Error σ Nat} {context : String}
    {offsets : Array Nat} {start : Nat} {code : List Instruction} {done : List Bytes} {bytes : Bytes} {s s' : σ} :
    encodeInstructions literal context offsets done (offsetsFrom start code).tail code s = .ok bytes s' ↔
      ∃ indices, (literals code).mapM literal s = .ok indices s' ∧ (∀ index ∈ indices, index ≤ 0xFFFFFF) ∧
        bytes = done.reverse.flatten ++ codeBytes offsets start code indices := by
  induction code generalizing start done s with
  | nil =>
    change (pure done.reverse.flatten : EStateM Error σ Bytes) s = _ ↔ _
    rw [pure_eq_ok, literals, List.flatMap_nil, List.mapM_nil]
    constructor
    · rintro ⟨rfl, rfl⟩
      exact ⟨[], rfl, List.forall_mem_nil _, (List.append_nil _).symm⟩
    · rintro ⟨indices, found, -, rfl⟩
      exact ⟨(List.append_nil _).symm, (pure_eq_ok.mp found).2⟩
  | cons i code ih =>
    have split : literals (i :: code) = i.operand.literals ++ literals code := List.flatMap_cons
    rw [offsetsFrom, List.tail_cons, offsetsFrom_eq_cons, encodeInstructions, bind_eq_ok, split]
    constructor
    · rintro ⟨operand, s₁, first, rest⟩
      obtain ⟨own, found, small, rfl⟩ := encodeOperand_eq_ok.mp first
      obtain ⟨others, founds, smalls, rfl⟩ := ih.mp rest
      have count := length_of_mapM found
      refine ⟨own ++ others, mapM_append_eq_ok.mpr ⟨own, s₁, others, found, founds, rfl⟩,
        List.forall_mem_append.mpr ⟨small, smalls⟩, ?_⟩
      simp only [codeBytes, List.take_left' count, List.drop_left' count, List.reverse_cons, List.flatten_append,
        List.flatten_singleton, List.append_assoc]
    · rintro ⟨indices, found, small, rfl⟩
      obtain ⟨own, s₁, others, first, rest, rfl⟩ := mapM_append_eq_ok.mp found
      obtain ⟨ownSmall, othersSmall⟩ := List.forall_mem_append.mp small
      have count := length_of_mapM first
      refine ⟨_, s₁, encodeOperand_eq_ok.mpr ⟨own, first, ownSmall, rfl⟩, ih.mpr ⟨others, rest, othersSmall, ?_⟩⟩
      simp only [codeBytes, List.take_left' count, List.drop_left' count, List.reverse_cons, List.flatten_append,
        List.flatten_singleton, List.append_assoc]

theorem literals_promote (code : List Instruction) : literals (promote code) = literals code := by
  have each : code.map (·.operand.literals) = (promote code).map (·.operand.literals) :=
    map_eq_map (widened_promote code) fun before after widened => by rw [Widened.operand_eq widened]
  rw [literals, literals, List.flatMap_def, List.flatMap_def, each]

/-- Encoding succeeds iff the instructions are valid and each literal gets an index that fits a token. -/
theorem encode_eq_ok {σ : Type} {literal : String → EStateM Error σ Nat} {context : String} {code : List Instruction}
    {encoded : EncodedBody} {s s' : σ} :
    Code.encode literal context code s = .ok encoded s' ↔
      Valid code ∧ ∃ indices, (literals code).mapM literal s = .ok indices s' ∧ (∀ index ∈ indices, index ≤ 0xFFFFFF) ∧
        encoded = ⟨codeBytes (offsets (promote code)).toArray 0 (promote code) indices, offsets (promote code),
          (code.zip (promote code)).countP fun (before, after) => before.opcode != after.opcode⟩ := by
  unfold Code.encode
  cases checked : check code with
  | error fault =>
    refine ⟨fun run => absurd run throw_ne_ok, fun accepted => ?_⟩
    rw [valid_of_check.mpr accepted.1] at checked
    cases checked
  | ok result =>
    have valid := valid_of_check.mp checked
    dsimp only
    rw [bind_eq_ok]
    constructor
    · rintro ⟨bytes, s₁, run, last⟩
      obtain ⟨rfl, rfl⟩ := pure_eq_ok.mp last
      obtain ⟨indices, found, small, rfl⟩ := encodeInstructions_eq_ok.mp run
      exact ⟨valid, indices, literals_promote code ▸ found, small, rfl⟩
    · rintro ⟨-, indices, found, small, rfl⟩
      exact ⟨_, s', encodeInstructions_eq_ok.mpr ⟨indices, (literals_promote code).symm ▸ found, small, rfl⟩, rfl⟩

theorem length_codeBytes {code : List Instruction} (wellFormed : ∀ i ∈ code, WellFormed i) (offsets : Array Nat)
    (start : Nat) (indices : List Nat) : (codeBytes offsets start code indices).length = codeSize code := by
  induction code generalizing start indices with
  | nil => rfl
  | cons i code ih =>
    have first := wellFormed i List.mem_cons_self
    have others := ih (fun other member => wellFormed other (List.mem_cons_of_mem i member))
    simp only [codeBytes, List.length_append, length_operandBytes first.fits, others, OpCode.length_bytes]
    rfl

/-- The decoder reads the instructions from their bytes. -/
theorem readsAll_codeBytes {lookup : Nat → Result String} {code : List Instruction}
    (wellFormed : ∀ i ∈ code, WellFormed i) (small : codeSize code < 2 ^ 32) (offsets : Array Nat) (start : Nat)
    {indices : List Nat} (names : Names lookup indices (literals code)) (placed : ∀ index ∈ indices, index ≤ 0xFFFFFF) :
    ReadsAll (scanStep lookup) start (codeBytes offsets start code indices) (scannedFrom offsets start code) := by
  induction code generalizing start indices with
  | nil => exact .nil start
  | cons i code ih =>
    have this := wellFormed i List.mem_cons_self
    have size := length_operandBytes this.fits (distance offsets (start + i.size))
      ((indices.take i.operand.literals.length).headD 0)
    have total : codeSize (i :: code) = i.opcode.size + i.operandSize + codeSize code := rfl
    have own : Names lookup (indices.take i.operand.literals.length) i.operand.literals :=
      List.forall₂_take_append _ _ _ names
    have others : Names lookup (indices.drop i.operand.literals.length) (literals code) :=
      List.forall₂_drop_append _ _ _ names
    have operand := readsOperand_operandBytes this.fits own (fun index member => placed index (List.mem_of_mem_take member))
      (by rw [size]; omega)
    have raw := (reads_readRaw this size operand).mapError (truncatedAt start)
    have item : Reads (scanStep lookup) start _ (start, seenAt offsets start i) :=
      (reads_position start).bind_nil (raw.map fun raw => (start, raw))
    refine .cons item ?_
    rw [List.length_append, size, OpCode.length_bytes]
    exact ih (fun other member => wellFormed other (List.mem_cons_of_mem i member)) (by omega) (start + i.size) others
      fun index member => placed index (List.mem_of_mem_drop member)

end Code

end CilWeaver
