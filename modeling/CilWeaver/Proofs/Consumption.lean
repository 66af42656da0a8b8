import CilWeaver.Proofs.Decoding
import CilWeaver.Proofs.Spans

/-!
What decoding any data tells about it: the data is the bytes of the instructions that the decoder answers,
laid out as they are, so that their short branches reach their targets.
-/

namespace CilWeaver

open Step

/-! Numbers and their bytes -/

theorem leIntBytes_of_emod {count : Nat} {n : Int} {m : Nat}
    (same : n % ((256 ^ count : Nat) : Int) = m) : leIntBytes count n = leBytes count m := by
  rw [leIntBytes]
  congr 1
  rw [show (256 ^ count : Int) = ((256 ^ count : Nat) : Int) from (Int.natCast_pow 256 count).symm, same]
  exact Int.toNat_natCast m

theorem leBytes_one (b : UInt8) : leBytes 1 b.toNat = [b] := by
  rw [leBytes, leBytes, UInt8.ofNat_toNat]

theorem leIntBytes_toInt8 (b : UInt8) : leIntBytes 1 b.toInt8.toInt = [b] := by
  rw [← leBytes_one]
  refine leIntBytes_of_emod ?_
  have signed : b.toInt8.toInt = (b.toNat : Int).bmod (2 ^ 8) := BitVec.toInt_eq_toNat_bmod _
  have := b.toNat_lt
  rw [signed, show ((256 ^ 1 : Nat) : Int) = ((2 ^ 8 : Nat) : Int) from rfl, Int.bmod_emod]
  omega

theorem leIntBytes_toInt32 (n : UInt32) : leIntBytes 4 n.toInt32.toInt = u32Bytes n := by
  refine leIntBytes_of_emod ?_
  have signed : n.toInt32.toInt = (n.toNat : Int).bmod (2 ^ 32) := BitVec.toInt_eq_toNat_bmod _
  have := n.toNat_lt
  rw [signed, show ((256 ^ 4 : Nat) : Int) = ((2 ^ 32 : Nat) : Int) from rfl, Int.bmod_emod]
  omega

theorem leIntBytes_toInt64 (n : UInt64) : leIntBytes 8 n.toInt64.toInt = u64Bytes n := by
  refine leIntBytes_of_emod ?_
  have signed : n.toInt64.toInt = (n.toNat : Int).bmod (2 ^ 64) := BitVec.toInt_eq_toNat_bmod _
  have := n.toNat_lt
  rw [signed, show ((256 ^ 8 : Nat) : Int) = ((2 ^ 64 : Nat) : Int) from rfl, Int.bmod_emod]
  omega

namespace Code

open Reader Instruction

theorem fitsShort_int8 (n : Int8) : fitsShort n.toInt = true := by
  have low := n.le_toInt
  have high := n.toInt_lt
  simp only [fitsShort, Bool.and_eq_true, decide_eq_true_eq]
  omega

/-- The row in the token of a literal. -/
def literalRow (operand : Bytes) : Nat := leNat (operand.take 3)

/-- What the decoder makes of the bytes of an operand: an operand of the kind, whose bytes they are. A short branch goes
    no farther than a signed byte says. -/
structure Sees (kind : OperandKind) (next : Nat) (bytes : Bytes) (operand : OperandAt Int) : Prop where
  fits : operandFits kind (operand.map Int.toNat) = true
  bytes_eq : bytes = operandBytes kind (fun t => t - next) (literalRow bytes) operand
  short : kind = .shortTarget → ∀ t ∈ operand.targets, fitsShort (t - next) = true

theorem Sees.plain {kind : OperandKind} {next : Nat} {bytes : Bytes} {operand : OperandAt Int}
    (fits : operandFits kind (operand.map Int.toNat) = true) (none : operand.targets = [])
    (same : operandBytes kind (fun t => t - next) (literalRow bytes) operand = bytes) : Sees kind next bytes operand :=
  ⟨fits, same.symm, fun _ _ member => absurd (none ▸ member) List.not_mem_nil⟩

theorem operandFits_int8 (b : UInt8) : operandFits .int8 (.int32 b.toInt8.toInt32) = true := by
  have low := b.toInt8.le_toInt
  have high := b.toInt8.toInt_lt
  have lowest : (-128 : Int32).toInt = -128 := by decide
  have highest : (127 : Int32).toInt = 127 := by decide
  simp only [operandFits, Bool.and_eq_true, decide_eq_true_eq, Int32.le_iff_toInt_le, Int8.toInt_toInt32]
  omega

theorem toInt_ofNat_byte (b : UInt8) : (Int32.ofNat b.toNat).toInt = b.toNat := by
  have bound := b.toNat_lt
  rw [Int32.toInt_ofNat']
  exact Int.bmod_eq_of_le (by omega) (by simp [Int32.size]; omega)

theorem operandFits_uint8 (b : UInt8) : operandFits .uint8 (.int32 (.ofNat b.toNat)) = true := by
  have bound := b.toNat_lt
  have lowest : (0 : Int32).toInt = 0 := by decide
  have highest : (255 : Int32).toInt = 255 := by decide
  simp only [operandFits, Bool.and_eq_true, decide_eq_true_eq, Int32.le_iff_toInt_le, toInt_ofNat_byte]
  omega

theorem operandFits_shortSlot (b : UInt8) : operandFits .shortSlot (.slot b.toUInt16) = true := by
  have bound := b.toNat_lt
  simp only [operandFits, decide_eq_true_eq, UInt16.le_iff_toNat_le, UInt8.toNat_toUInt16]
  change b.toNat ≤ 255
  omega

/-- The token of a literal is a function of its row. -/
theorem leBytes_literalRow {token : Token} (literal : token.tableNumber = literalTable) :
    leBytes 4 (0x70000000 + literalRow (u32Bytes token.value)) = u32Bytes token.value := by
  have row : literalRow (u32Bytes token.value) = token.value.toNat % 2 ^ 24 := leNat_leBytes 3 token.value.toNat
  rw [Token.tableNumber, literalTable] at literal
  rw [row, u32Bytes]
  congr 1
  omega

theorem spans_readOperand (literal : Nat → Result String) (start : Nat) (kind : OperandKind) :
    Spans (readOperand literal start kind) fun position taken operand =>
      Sees kind (position + taken.length) taken operand := by
  cases kind with
  | none =>
    apply (Spans.pure _).mono
    rintro position taken operand ⟨rfl, rfl⟩
    exact .plain rfl rfl rfl
  | int8 =>
    apply (Spans.map .byte).mono
    rintro position taken operand ⟨b, rfl, rfl⟩
    refine .plain (operandFits_int8 b) rfl ?_
    rw [operandBytes, Int8.toInt_toInt32]
    exact leIntBytes_toInt8 b
  | uint8 =>
    apply (Spans.map .byte).mono
    rintro position taken operand ⟨b, rfl, rfl⟩
    refine .plain (operandFits_uint8 b) rfl ?_
    have bound := b.toNat_lt
    have same : leIntBytes 1 (b.toNat : Int) = leBytes 1 b.toNat := leIntBytes_of_emod (by omega)
    rw [operandBytes, toInt_ofNat_byte, ← leBytes_one]
    exact same
  | int32 =>
    apply (Spans.map .u32).mono
    rintro position taken operand ⟨n, rfl, rfl⟩
    exact .plain rfl rfl (leIntBytes_toInt32 n)
  | int64 =>
    apply (Spans.map .u64).mono
    rintro position taken operand ⟨n, rfl, rfl⟩
    exact .plain rfl rfl (leIntBytes_toInt64 n)
  | float32 | token =>
    apply (Spans.map .u32).mono
    rintro position taken operand ⟨n, rfl, rfl⟩
    exact .plain rfl rfl rfl
  | float64 =>
    apply (Spans.map .u64).mono
    rintro position taken operand ⟨n, rfl, rfl⟩
    exact .plain rfl rfl rfl
  | shortSlot =>
    apply (Spans.map .byte).mono
    rintro position taken operand ⟨b, rfl, rfl⟩
    exact .plain (operandFits_shortSlot b) rfl (leBytes_one b)
  | slot =>
    apply (Spans.map .u16).mono
    rintro position taken operand ⟨n, rfl, rfl⟩
    exact .plain rfl rfl rfl
  | string =>
    have rest : ∀ n : UInt32, Spans (do
        let token : Token := ⟨n⟩
        if token.tableNumber != literalTable then Reader.malformed (.literalTable start token)
        return .string (← Reader.ofResult (literal token.row)) : Reader (OperandAt Int))
        fun _ taken operand => taken = [] ∧ Token.tableNumber ⟨n⟩ = literalTable ∧ ∃ text, operand = .string text := by
      intro n
      refine Spans.ite (fun _ => Spans.malformed_bind _ _) fun same => (Spans.map Spans.ofResult).mono ?_
      rintro position taken operand ⟨text, rfl, rfl⟩
      exact ⟨rfl, by simpa using same, text, rfl⟩
    apply (Spans.u32.bind rest).mono
    rintro position taken operand ⟨n, front, back, rfl, rfl, rfl, table, text, rfl⟩
    rw [List.append_nil]
    exact .plain rfl rfl (leBytes_literalRow table)
  | shortTarget =>
    apply (Spans.byte.bind fun b => Spans.map Spans.position).mono
    rintro position taken operand ⟨b, front, back, rfl, rfl, next, ⟨rfl, rfl⟩, rfl⟩
    have back : ∀ n : Int, ((position + [b].length : Nat) : Int) + n - ((position + ([b] ++ []).length : Nat) : Int) = n :=
      fun n => by simp
    refine ⟨rfl, ?_, fun _ t member => ?_⟩
    · rw [operandBytes, back]
      exact (leIntBytes_toInt8 b).symm
    · rw [List.mem_singleton.mp member, back]
      exact fitsShort_int8 _
  | target =>
    apply (Spans.u32.bind fun n => Spans.map Spans.position).mono
    rintro position taken operand ⟨n, front, back, rfl, rfl, next, ⟨rfl, rfl⟩, rfl⟩
    refine ⟨rfl, ?_, fun short => by cases short⟩
    have same : ∀ d : Int, ((position + (u32Bytes n).length : Nat) : Int) + d - ((position + (u32Bytes n ++ []).length : Nat) : Int) = d :=
      fun d => by simp
    rw [operandBytes, same, List.append_nil]
    exact (leIntBytes_toInt32 n).symm
  | switch =>
    unfold readOperand
    apply (Spans.u32.bind fun count => Spans.remaining.bind fun left => Spans.ite (fun _ => Spans.malformed_bind _ _)
      fun _ => (Spans.times Spans.u32 count.toNat).bind fun distances => Spans.map Spans.position).mono
    rintro position taken operand ⟨count, _, _, rfl, rfl, left, _, _, rfl, rfl, distances, _, _, rfl, ⟨length, rfl⟩,
      next, ⟨rfl, rfl⟩, rfl⟩
    refine ⟨rfl, ?_, fun short => by cases short⟩
    have table : ∀ next : Int, ((distances.map fun d => next + d.toInt32.toInt).map fun t => t - next).flatMap (leIntBytes 4) =
        distances.flatMap u32Bytes := by
      intro next
      rw [List.map_map, List.flatMap_map]
      refine List.flatMap_congr fun d _ => ?_
      rw [Function.comp_apply, add_sub_cancel_left, leIntBytes_toInt32]
    simp only [operandBytes, List.append_nil, List.nil_append, List.length_append, List.length_nil, Nat.zero_add,
      Nat.add_assoc]
    rw [table, List.length_map, length]
    rfl

theorem spans_readOpCode : Spans readOpCode fun _ taken o => taken = o.bytes := by
  have wide : ∀ b : UInt8, OpCode.bytes ⟨0xFE00 + b.toUInt16⟩ = [0xFE, b] := by decide +kernel
  have narrow : ∀ b : UInt8, OpCode.bytes ⟨b.toUInt16⟩ = [b] := by decide +kernel
  have rest : ∀ first : UInt8, Spans (do
      if first == 0xFE then return ⟨0xFE00 + (← Reader.byte).toUInt16⟩ else return ⟨first.toUInt16⟩ : Reader OpCode)
      fun _ taken o => first :: taken = o.bytes := by
    intro first
    refine Spans.ite (fun same => (Spans.map .byte).mono ?_) fun _ => (Spans.pure _).mono ?_
    · rintro position taken o ⟨b, rfl, rfl⟩
      rw [beq_iff_eq.mp same, wide]
    · rintro position taken o ⟨rfl, rfl⟩
      exact (narrow first).symm
  apply (Spans.byte.bind rest).mono
  rintro position taken o ⟨first, front, back, rfl, rfl, own⟩
  exact own

/-- The size of an instruction, which does not depend on the form of its targets. -/
def rawSize (raw : InstructionAt Int) : Nat := Instruction.size (raw.map Int.toNat)

theorem length_operandBytes_map {τ σ : Type} (kind : OperandKind) (d : τ → Int) (d' : σ → Int) (f : τ → σ) (index : Nat)
    (operand : OperandAt τ) :
    (operandBytes kind d' index (operand.map f)).length = (operandBytes kind d index operand).length := by
  cases operand with
  | switch ts =>
    simp only [operandBytes, OperandAt.map, List.length_append, length_flatMap_leIntBytes, List.length_map, length_leBytes]
  | _ => simp [operandBytes, OperandAt.map]

/-- What the decoder makes of the bytes of an instruction at `start`. -/
structure SeesRaw (start : Nat) (bytes : Bytes) (raw : InstructionAt Int) : Prop where
  wellFormed : WellFormed (raw.map Int.toNat)
  bytes_eq : bytes = raw.opcode.bytes ++ operandBytes raw.opcode.operandKind (fun t => t - (start + bytes.length : Nat))
    (literalRow (bytes.drop raw.opcode.size)) raw.operand
  short : raw.opcode.operandKind = .shortTarget → ∀ t ∈ raw.operand.targets, fitsShort (t - (start + bytes.length : Nat)) = true

theorem spans_readRaw (literal : Nat → Result String) : Spans (readRaw literal) SeesRaw := by
  intro c raw c' run
  unfold readRaw at run
  obtain ⟨start, c₁, here, run⟩ := bind_eq_ok.mp run
  cases here
  obtain ⟨o, c₂, first, run⟩ := bind_eq_ok.mp run
  obtain ⟨front, rest, position, rfl⟩ := spans_readOpCode c o c₂ first
  cases known : o.operation? with
  | none =>
    simp only [known] at run
    exact absurd run throw_ne_ok
  | some operation =>
    simp only [known] at run
    obtain ⟨operand, c₃, second, run⟩ := bind_eq_ok.mp run
    obtain ⟨back, rest', position', sees⟩ := spans_readOperand literal c.position operation.operand c₂ operand c₃ second
    obtain ⟨rfl, rfl⟩ := pure_eq_ok.mp run
    have kind := OpCode.operandKind_of_operation? known
    have stop : c₂.position + back.length = c.position + (o.bytes ++ back).length := by
      rw [position, List.length_append, Nat.add_assoc]
    rw [stop, ← kind] at sees
    refine ⟨o.bytes ++ back, by rw [rest, rest', List.append_assoc], by rw [position', stop],
      ⟨operation, known, kind ▸ sees.fits⟩, ?_, sees.short⟩
    rw [List.drop_left' (OpCode.length_bytes o), ← sees.bytes_eq]

theorem SeesRaw.length {start : Nat} {bytes : Bytes} {raw : InstructionAt Int} (sees : SeesRaw start bytes raw) :
    bytes.length = rawSize raw := by
  have operand := length_operandBytes sees.wellFormed.fits (fun _ => 0) (literalRow (bytes.drop raw.opcode.size))
  have same := length_operandBytes_map raw.opcode.operandKind (fun t => t - (start + bytes.length : Nat)) (fun _ : Nat => 0)
    Int.toNat (literalRow (bytes.drop raw.opcode.size)) raw.operand
  have whole := congrArg List.length sees.bytes_eq
  rw [List.length_append, OpCode.length_bytes, ← same] at whole
  exact whole.trans (congrArg (raw.opcode.size + ·) operand)

theorem rest_shorter_of_readRaw {literal : Nat → Result String} {c c' : Cursor} {raw : InstructionAt Int}
    (read : readRaw literal c = .ok raw c') : c'.rest.length < c.rest.length := by
  obtain ⟨own, rest, -, sees⟩ := spans_readRaw literal c raw c' read
  have pos : 0 < own.length := by
    rw [sees.length]
    exact size_pos _
  rw [rest, List.length_append]
  omega

theorem scanStep_eq_ok {literal : Nat → Result String} {c c' : Cursor} {item : Nat × InstructionAt Int} :
    scanStep literal c = .ok item c' ↔ item.1 = c.position ∧ readRaw literal c = .ok item.2 c' := by
  obtain ⟨place, raw⟩ := item
  have here : scanStep literal c =
      ((readRaw literal).mapError (truncatedAt c.position) >>= fun raw => pure (c.position, raw)) c := rfl
  rw [here, bind_eq_ok]
  constructor
  · rintro ⟨raw', c₁, read, run⟩
    obtain ⟨same, rfl⟩ := pure_eq_ok.mp run
    cases same
    exact ⟨rfl, mapError_eq_ok.mp read⟩
  · rintro ⟨rfl, read⟩
    exact ⟨raw, c', mapError_eq_ok.mpr read, rfl⟩

/-- Scanning code is reading its instructions one by one, with what they say of their targets. -/
theorem scan_iff_repeats {literal : Nat → Result String} {bytes : Bytes} {raws : List (Nat × InstructionAt Int)} :
    (scan literal).parse bytes = .ok raws ↔ Repeats (readRaw literal) (.start bytes) raws := by
  have loop : (∃ c', untilEndFrom (scanStep literal) [] bytes.length (.start bytes) = .ok raws c') ↔
      ∃ items, raws = [] ++ items ∧ Repeats (readRaw literal) (.start bytes) items :=
    untilEndFrom_iff_repeats (fun _ _ _ => scanStep_eq_ok) (fun _ _ _ => rest_shorter_of_readRaw) (Nat.le_refl bytes.length)
  simp only [List.nil_append, exists_eq_left'] at loop
  rw [parse_eq_ok]
  exact loop

/-- Instructions that lie back to back in the bytes from `start` on, each behind its place. -/
inductive Scanned : (start : Nat) → Bytes → List (Nat × InstructionAt Int) → Prop where
  | nil (start : Nat) : Scanned start [] []
  | cons {start : Nat} {own rest : Bytes} {raw : InstructionAt Int} {items : List (Nat × InstructionAt Int)}
      (first : SeesRaw start own raw) (others : Scanned (start + own.length) rest items) :
      Scanned start (own ++ rest) ((start, raw) :: items)

theorem Scanned.wellFormed {start : Nat} {bytes : Bytes} {items : List (Nat × InstructionAt Int)}
    (scanned : Scanned start bytes items) : ∀ item ∈ items, WellFormed (item.2.map Int.toNat) := by
  induction scanned with
  | nil => exact fun item impossible => absurd impossible List.not_mem_nil
  | cons first _ ih => exact List.forall_mem_cons.mpr ⟨first.wellFormed, ih⟩

theorem scanned_of_repeats {literal : Nat → Result String} {c : Cursor} {raws : List (Nat × InstructionAt Int)}
    (repeats : Repeats (readRaw literal) c raws) : Scanned c.position c.rest raws := by
  induction repeats with
  | ended position => exact .nil position
  | @step c c' raw raws _ read _ ih =>
    obtain ⟨own, left, position, sees⟩ := spans_readRaw literal c raw c' read
    rw [position] at ih
    rw [left]
    exact .cons sees ih

/-- The targets are replaced one by one. -/
theorem targets_of_mapM {τ σ ε : Type} {operand : OperandAt τ} {result : OperandAt σ} {f : τ → Except ε σ}
    (h : operand.mapM f = .ok result) : List.Forall₂ (fun t u => f t = .ok u) operand.targets result.targets := by
  cases operand with
  | target t =>
    obtain ⟨u, found, rfl⟩ := Outcome.map_eq_ok.mp h
    exact .cons found .nil
  | switch ts =>
    obtain ⟨us, found, rfl⟩ := Outcome.map_eq_ok.mp h
    exact Outcome.mapM_eq_ok.mp found
  | _ =>
    cases h
    exact .nil

theorem rawSize_of_mapM {raw : InstructionAt Int} {i : Instruction} {f : Int → Result Nat} (h : raw.mapM f = .ok i) :
    i.size = rawSize raw := by
  obtain ⟨o, operand⟩ := raw
  obtain ⟨result, found, rfl⟩ := Outcome.map_eq_ok.mp h
  have same : Instruction.operandSize ⟨o, result⟩ = Instruction.operandSize ⟨o, operand.map Int.toNat⟩ := by
    cases operand with
    | target t =>
      obtain ⟨t', -, rfl⟩ := Outcome.map_eq_ok.mp found
      unfold Instruction.operandSize
      cases o.operandKind <;> rfl
    | switch ts =>
      obtain ⟨ts', resolved, rfl⟩ := Outcome.map_eq_ok.mp found
      have count := (Outcome.mapM_eq_ok.mp resolved).length_eq
      unfold Instruction.operandSize
      cases o.operandKind <;> simp [OperandAt.map, count]
    | _ =>
      cases found
      rfl
  exact congrArg (o.size + ·) same

/-- The layout of the instructions is the one that was scanned. -/
theorem Scanned.layout {start : Nat} {bytes : Bytes} {items : List (Nat × InstructionAt Int)} {code : List Instruction}
    {f : Nat → Int → Result Nat} (scanned : Scanned start bytes items)
    (resolved : List.Forall₂ (fun item i => item.2.mapM (f item.1) = .ok i) items code) :
    codeSize code = bytes.length ∧ items.map (·.1) = (offsetsFrom start code).take code.length := by
  induction scanned generalizing code with
  | nil =>
    cases resolved
    exact ⟨rfl, rfl⟩
  | cons first others ih =>
    obtain ⟨i, code, one, rest, rfl⟩ := List.forall₂_cons_left_iff.mp resolved
    obtain ⟨size, places⟩ := ih rest
    rw [first.length, ← rawSize_of_mapM one] at places
    rw [codeSize_cons, List.map_cons, places, offsetsFrom, List.length_cons, List.take_succ_cons, List.length_append,
      first.length, ← rawSize_of_mapM one, size]
    exact ⟨rfl, rfl⟩

theorem Scanned.split {start : Nat} {bytes : Bytes} {front back : List (Nat × InstructionAt Int)}
    {item : Nat × InstructionAt Int} {code : List Instruction} {f : Nat → Int → Result Nat}
    (scanned : Scanned start bytes (front ++ item :: back))
    (resolved : List.Forall₂ (fun item i => item.2.mapM (f item.1) = .ok i) front code) :
    ∃ own, SeesRaw (start + codeSize code) own item.2 := by
  induction resolved generalizing start bytes with
  | nil =>
    cases scanned with
    | cons first others => exact ⟨_, first⟩
  | cons first others ih =>
    cases scanned with
    | cons sees rest =>
      obtain ⟨own, found⟩ := ih rest
      rw [sees.length, ← rawSize_of_mapM first, Nat.add_assoc] at found
      exact ⟨own, found⟩

/-- Decoding goes through the data once and then looks the targets up among the places that were passed. -/
theorem scanned_of_decode {literal : Nat → Result String} {bytes : Bytes} {body : DecodedBody}
    (h : decode literal bytes = .ok body) :
    ∃ items, Scanned 0 bytes items ∧
      List.Forall₂ (fun item i => item.2.mapM (resolve ((offsets body.code).take body.code.length) item.1) = .ok i) items
        body.code ∧ codeSize body.code = bytes.length ∧ body.offsets = offsets body.code := by
  unfold decode at h
  obtain ⟨items, scan, h⟩ := Outcome.bind_eq_ok.mp h
  obtain ⟨code, found, h⟩ := Outcome.bind_eq_ok.mp h
  cases Outcome.pure_eq_ok.mp h
  have resolved := Outcome.mapM_eq_ok.mp found
  have scanned : Scanned 0 bytes items := scanned_of_repeats (scan_iff_repeats.mp scan)
  obtain ⟨size, starts⟩ := scanned.layout resolved
  have whole := take_append_codeSize 0 code
  rw [Nat.zero_add, size, ← starts] at whole
  rw [starts] at resolved
  exact ⟨items, scanned, resolved, size, whole⟩

theorem wellFormed_of_mapM {raw : InstructionAt Int} {i : Instruction} {f : Int → Result Nat} (resolved : raw.mapM f = .ok i)
    (wellFormed : WellFormed (raw.map Int.toNat)) : WellFormed i := by
  obtain ⟨operand, found, rfl⟩ := Outcome.map_eq_ok.mp resolved
  obtain ⟨o, shape⟩ := raw
  obtain ⟨operation, defined, fits⟩ := wellFormed
  refine ⟨operation, defined, ?_⟩
  rw [← fits]
  cases shape with
  | target t =>
    obtain ⟨u, -, rfl⟩ := Outcome.map_eq_ok.mp found
    cases operation.operand <;> rfl
  | switch ts =>
    obtain ⟨us, -, rfl⟩ := Outcome.map_eq_ok.mp found
    cases operation.operand <;> rfl
  | _ =>
    cases found
    rfl

/-- Decoded instructions have the operands of their operations. -/
theorem wellFormed_of_decode {literal : Nat → Result String} {bytes : Bytes} {body : DecodedBody}
    (h : decode literal bytes = .ok body) : ∀ i ∈ body.code, WellFormed i := by
  obtain ⟨items, scanned, resolved, -, -⟩ := scanned_of_decode h
  intro i member
  obtain ⟨item, inside, found⟩ := forall₂_of_mem resolved.flip member
  exact wellFormed_of_mapM found (scanned.wellFormed item inside)

/-- Every short branch reaches its target. -/
def Settled (code : List Instruction) : Prop :=
  ∀ front i back t, code = front ++ i :: back → i.isShort = true → i.operand = .target t →
    t < code.length ∧ fitsShort ((codeSize (code.take t) : Int) - ((codeSize front + i.size : Nat) : Int)) = true

theorem resolve_eq_ok {starts : List Nat} {start index : Nat} {target : Int} (h : resolve starts start target = .ok index) :
    0 ≤ target ∧ starts[index]? = some target.toNat := by
  unfold resolve at h
  by_cases negative : target < 0
  · simp only [negative, ↓reduceIte] at h
    cases h
  · simp only [negative, ↓reduceIte] at h
    cases found : starts.idxOf? target.toNat with
    | none =>
      simp only [found] at h
      cases h
    | some place =>
      simp only [found] at h
      cases h
      obtain ⟨bound, same, -⟩ := List.idxOf?_eq_some_iff.mp found
      exact ⟨by omega, List.getElem?_eq_some_iff.mpr ⟨bound, same⟩⟩

/-- The place of a target is the size of the code in front of it. -/
theorem codeSize_of_resolve {code : List Instruction} {start index : Nat} {target : Int}
    (h : resolve ((offsets code).take code.length) start target = .ok index) :
    index < code.length ∧ (codeSize (code.take index) : Int) = target := by
  obtain ⟨nonneg, place⟩ := resolve_eq_ok h
  obtain ⟨bound, -⟩ := List.getElem?_eq_some_iff.mp place
  have inside : index < code.length := by
    rw [List.length_take] at bound
    omega
  rw [getElem?_starts code inside, Option.some.injEq] at place
  exact ⟨inside, by omega⟩

/-- Code that is decoded is as large as its bytes, and its short branches reach their targets. -/
theorem settled_of_decode {literal : Nat → Result String} {bytes : Bytes} {body : DecodedBody}
    (h : decode literal bytes = .ok body) : codeSize body.code = bytes.length ∧ Settled body.code := by
  obtain ⟨items, scanned, resolved, size, -⟩ := scanned_of_decode h
  refine ⟨size, fun front i back t shape short operand => ?_⟩
  rw [shape] at resolved ⊢
  have head := List.forall₂_take_append items front (i :: back) resolved
  have tail := List.forall₂_drop_append items front (i :: back) resolved
  obtain ⟨⟨place, raw⟩, rest, first, -, split⟩ := List.forall₂_cons_right_iff.mp tail
  rw [← List.take_append_drop front.length items, split] at scanned
  obtain ⟨own, seen⟩ := scanned.split head
  rw [Nat.zero_add] at seen
  have length := seen.length
  dsimp only at first length
  rw [← rawSize_of_mapM first] at length
  obtain ⟨result, target, rfl⟩ := Outcome.map_eq_ok.mp first
  dsimp only at operand length
  subst operand
  have pairs := targets_of_mapM target
  obtain ⟨u, member, found⟩ := forall₂_of_mem pairs.flip (List.mem_singleton_self t)
  obtain ⟨inside, at_target⟩ := codeSize_of_resolve found
  have near := seen.short (beq_iff_eq.mp short) u member
  rw [length, ← at_target] at near
  exact ⟨inside, near⟩

/-- Code whose short branches reach their targets is written as it is. -/
theorem Settled.promoteOnce_eq {code : List Instruction} (settled : Settled code) : promoteOnce code = code := by
  change List.zipWith (widen (offsets code).toArray) (offsets code).tail code = code
  refine List.ext_getElem (length_promoteOnce code) ?_
  change ∀ index (_ : index < (List.zipWith _ _ code).length) (_ : index < code.length), _
  intro index inside bound
  have next : index < (offsets code).tail.length := by
    rw [length_tail_offsets]
    exact bound
  rw [List.getElem_zipWith]
  have place : (offsets code).tail[index] = codeSize (code.take (index + 1)) := by
    have known := getElem?_offsets code bound
    rw [← List.getElem?_tail, List.getElem?_eq_getElem next] at known
    exact Option.some.inj known
  have through : codeSize (code.take (index + 1)) = codeSize (code.take index) + code[index].size := by
    rw [List.take_succ_eq_append_getElem bound, codeSize_append]
    rfl
  rcases widened_widen (offsets code).toArray (offsets code).tail[index] code[index] with same | ⟨short, ⟨t, operand⟩, -⟩
  · exact same
  · obtain ⟨reach, fits⟩ := settled (code.take index) code[index] (code.drop (index + 1)) t
      (by simp) short operand
    unfold widen
    simp only [beq_iff_eq.mp short, operand]
    rw [place, through, distance_offsets code _ (Nat.le_of_lt reach), if_pos fits]

end Code

end CilWeaver
