import CilWeaver.Proofs.Answers
import CilWeaver.Proofs.Consumption
import CilWeaver.Proofs.Regions

/-!
Code that was decoded, and the positions that are found in it. Encoding and decoding undo each other: decoding encoded
code gives the instructions back, with the branches that were promoted in their long form, and encoding decoded code
gives every byte back.
-/

namespace CilWeaver

namespace Code

open Step Reader

/-- What decoding code tells about the instructions. -/
structure Laid (bytes : Bytes) (body : DecodedBody) : Prop where
  size : codeSize body.code = bytes.length
  offsets : body.offsets = Code.offsets body.code
  targets : ∀ i ∈ body.code, ∀ t ∈ i.targets, t < body.code.length

theorem laid_of_decode {literal : Nat → Result String} {bytes : Bytes} {body : DecodedBody}
    (h : decode literal bytes = .ok body) : Laid bytes body := by
  obtain ⟨items, -, resolved, size, offsets⟩ := scanned_of_decode h
  refine ⟨size, offsets, fun i member t inside => ?_⟩
  obtain ⟨item, -, answer⟩ := forall₂_of_mem resolved.flip member
  obtain ⟨operand, targets, rfl⟩ := Outcome.map_eq_ok.mp answer
  obtain ⟨u, -, found⟩ := forall₂_of_mem (targets_of_mapM targets).flip inside
  exact (codeSize_of_resolve found).1

end Code

namespace DecodedBody

variable {body : DecodedBody}

theorem indexOf?_eq_some {offset index : Nat} (h : body.indexOf? offset = some index) :
    index < body.code.length ∧ body.offsets[index]? = some offset := by
  obtain ⟨bound, same, -⟩ := List.idxOf?_eq_some_iff.mp h
  have inside : index < body.code.length := by
    rw [List.length_take] at bound
    omega
  refine ⟨inside, ?_⟩
  rw [← List.getElem?_take_of_lt inside, List.getElem?_eq_getElem bound, same]

theorem boundaryOf?_eq_some {offset index : Nat} (h : body.boundaryOf? offset = some index) :
    body.offsets[index]? = some offset := by
  obtain ⟨bound, same, -⟩ := List.idxOf?_eq_some_iff.mp h
  exact List.getElem?_eq_some_iff.mpr ⟨bound, same⟩

end DecodedBody

/-! Code that is encoded and decoded -/

namespace Code

open Instruction Step

/-- Encoded code is decoded to the promoted instructions, by any look-up that knows its literals. -/
theorem decode_undoes_encode {σ : Type} {literal : String → EStateM Error σ Nat} {context : String} {code : List Instruction}
    {encoded : EncodedBody} {s s' : σ} (run : Code.encode literal context code s = .ok encoded s')
    (small : encoded.bytes.length < 2 ^ 31) :
    ∃ indices, (literals code).mapM literal s = .ok indices s' ∧ ∀ lookup, Names lookup indices (literals code) →
      ∃ body, decode lookup encoded.bytes = .ok body ∧ body.offsets = encoded.offsets ∧ body.code = promote code ∧
        List.Forall₂ Widened code body.code := by
  obtain ⟨valid, indices, found, placed, rfl⟩ := encode_eq_ok.mp run
  refine ⟨indices, found, fun lookup names => ⟨⟨promote code, offsets (promote code)⟩, ?_, rfl, rfl, widened_promote code⟩⟩
  have wellFormed := valid.promote.wellFormed
  have size := length_codeBytes wellFormed (offsets (promote code)).toArray 0 indices
  rw [size] at small
  have reads := readsAll_codeBytes wellFormed (small.trans (by decide)) (offsets (promote code)).toArray 0
    (literals_promote code ▸ names) placed
  exact (decode_eq_ok_of_reads (promoteOnce_promote code) valid.promote size reads (by omega)).mpr
    ⟨rfl, reaches_of_small valid.promote small⟩

/-- A long jump over a jump table, behind a literal. -/
def jump : List Instruction :=
  [⟨⟨0x72⟩, .string "a"⟩, ⟨⟨0x2B⟩, .target 18⟩] ++ List.replicate 15 ⟨⟨0x23⟩, .float64 1⟩ ++
    [⟨⟨0x45⟩, .switch [0, 18]⟩, ret]

theorem decode_undoes_encode_jump :
    ∃ encoded body, Code.encode (fun _ => pure 7) "" jump () = .ok encoded () ∧ encoded.promoted = 1 ∧
      decode (fun _ => .ok "a") encoded.bytes = .ok body ∧ body.offsets = encoded.offsets ∧
      List.Forall₂ Widened jump body.code := by
  have ran : ∃ encoded, Code.encode (fun _ => pure 7) "" jump () = .ok encoded () ∧
      decide (encoded.bytes.length < 2 ^ 31 ∧ encoded.promoted = 1) = true := exists_of_any (by decide +kernel)
  obtain ⟨encoded, run, holds⟩ := ran
  obtain ⟨small, promoted⟩ := of_decide_eq_true holds
  obtain ⟨indices, found, decodes⟩ := decode_undoes_encode run small
  have names : Names (fun _ => .ok "a") indices (literals jump) := by
    have known : (literals jump).mapM (fun _ => pure 7 : String → EStateM Error Unit Nat) () = .ok [7] () := rfl
    rw [known] at found
    cases found
    exact .cons rfl .nil
  obtain ⟨body, decoded, offsets, -, widened⟩ := decodes _ names
  exact ⟨encoded, body, run, promoted, decoded, offsets, widened⟩

/-- The rows in the tokens of the string literals, in the order of the instructions. -/
def literalRows (bytes : Bytes) (offsets : List Nat) (code : List Instruction) : List Nat :=
  (code.zip offsets).flatMap fun (i, offset) =>
    i.operand.literals.map fun _ => literalRow (bytes.drop (offset + i.opcode.size))

theorem literalRows_cons (bytes : Bytes) (offset : Nat) (offsets : List Nat) (i : Instruction) (code : List Instruction) :
    literalRows bytes (offset :: offsets) (i :: code) =
      (i.operand.literals.map fun _ => literalRow (bytes.drop (offset + i.opcode.size))) ++ literalRows bytes offsets code :=
  rfl

theorem literalRow_lt (operand : Bytes) : literalRow operand ≤ 0xFFFFFF := by
  have bound := leNat_lt (operand.take 3)
  have few : (operand.take 3).length ≤ 3 := List.length_take_le 3 operand
  have power : 256 ^ (operand.take 3).length ≤ 256 ^ 3 := Nat.pow_le_pow_right (by decide) few
  unfold literalRow
  omega

theorem operandBytes_of_mapM {kind : OperandKind} {raw : OperandAt Int} {operand : Operand} {f : Int → Result Nat}
    (resolved : raw.mapM f = .ok operand) {d : Int → Int} {d' : Nat → Int} (same : ∀ t u, f t = .ok u → d t = d' u)
    (index : Nat) : operandBytes kind d index raw = operandBytes kind d' index operand := by
  cases raw with
  | target t =>
    obtain ⟨u, found, rfl⟩ := Outcome.map_eq_ok.mp resolved
    rw [operandBytes, operandBytes, same t u found]
  | switch ts =>
    obtain ⟨us, found, rfl⟩ := Outcome.map_eq_ok.mp resolved
    have pairs := Outcome.mapM_eq_ok.mp found
    rw [operandBytes, operandBytes, pairs.length_eq, map_eq_map pairs same]
  | _ =>
    cases resolved
    rfl

theorem literalRow_append {operand : Bytes} (long : 3 ≤ operand.length) (rest : Bytes) :
    literalRow (operand ++ rest) = literalRow operand := by
  rw [literalRow, literalRow, List.take_append_of_le_length long]

/-- An instruction is encoded as the bytes that it was read from. -/
theorem SeesRaw.bytes_eq_of_mapM {start : Nat} {own : Bytes} {raw : InstructionAt Int} {i : Instruction}
    {f : Int → Result Nat} {distance : Nat → Int} (sees : SeesRaw start own raw) (rest : Bytes) (resolved : raw.mapM f = .ok i)
    (meant : ∀ t u, f t = .ok u → t - (start + i.size : Nat) = distance u) :
    own = i.opcode.bytes ++ operandBytes i.opcode.operandKind distance
      ((i.operand.literals.map fun _ => literalRow ((own ++ rest).drop i.opcode.size)).headD 0) i.operand := by
  have size := sees.length.trans (rawSize_of_mapM resolved).symm
  have bytes := sees.bytes_eq
  obtain ⟨operand, found, rfl⟩ := Outcome.map_eq_ok.mp resolved
  rw [size] at bytes
  rw [operandBytes_of_mapM found meant] at bytes
  refine bytes.trans (congrArg (raw.opcode.bytes ++ ·) ?_)
  cases operand with
  | string text =>
    have drop := congrArg (List.drop raw.opcode.size) bytes
    rw [List.drop_left' (OpCode.length_bytes _), operandBytes] at drop
    have long := congrArg List.length drop
    rw [length_leBytes] at long
    have inside : raw.opcode.size ≤ own.length := by
      rw [List.length_drop] at long
      omega
    have same : literalRow ((own ++ rest).drop raw.opcode.size) = literalRow (own.drop raw.opcode.size) := by
      rw [List.drop_append_of_le_length inside, literalRow_append (by omega)]
    rw [← same]
    rfl
  | _ => rfl

/-- Code is encoded as the bytes that it was read from. -/
theorem codeBytes_of_scanned (front : Bytes) {start : Nat} {bytes : Bytes} {items : List (Nat × InstructionAt Int)}
    {code : List Instruction} {f : Nat → Int → Result Nat} {table : Array Nat}
    (meant : ∀ (next place : Nat) t u, f place t = .ok u → t - next = distance table next u) (scanned : Scanned start bytes items)
    (resolved : List.Forall₂ (fun item i => item.2.mapM (f item.1) = .ok i) items code) (placed : front.length = start) :
    bytes = codeBytes table start code (literalRows (front ++ bytes) (offsetsFrom start code) code) := by
  induction scanned generalizing code front with
  | nil =>
    cases resolved
    rfl
  | @cons start own rest raw items first others ih =>
    obtain ⟨i, code, one, more, rfl⟩ := List.forall₂_cons_left_iff.mp resolved
    have size := first.length.trans (rawSize_of_mapM one).symm
    have others := ih (front ++ own) more (by rw [List.length_append, placed])
    have this := first.bytes_eq_of_mapM rest one fun t u => meant _ _ t u
    have rows : literalRows (front ++ (own ++ rest)) (offsetsFrom start (i :: code)) (i :: code) =
        (i.operand.literals.map fun _ => literalRow ((own ++ rest).drop i.opcode.size)) ++
          literalRows (front ++ own ++ rest) (offsetsFrom (start + own.length) code) code := by
      have skip : (front ++ (own ++ rest)).drop (start + i.opcode.size) = (own ++ rest).drop i.opcode.size := by
        rw [← List.drop_drop, List.drop_left' placed]
      rw [offsetsFrom, literalRows_cons, skip, size, ← List.append_assoc]
    simp only [codeBytes]
    rw [rows, List.take_left' (List.length_map ..), List.drop_left' (List.length_map ..), ← this, ← size, ← others]

/-- Code that stays as it is has no promoted branch. -/
theorem countP_same (code : List Instruction) :
    ((code.zip code).countP fun (before, after) => before.opcode != after.opcode) = 0 := by
  rw [List.countP_eq_zero]
  intro pair member
  obtain ⟨index, bound, rfl⟩ := List.getElem_of_mem member
  simp

/-- Decoded code is encoded to the bytes that it was decoded from, if each literal gets its old row. -/
theorem encode_undoes_decode {lookup : Nat → Result String} {bytes : Bytes} {body : DecodedBody} (decoded : decode lookup bytes = .ok body)
    {σ : Type} {literal : String → EStateM Error σ Nat} {s s' : σ}
    (answers : (literals body.code).mapM literal s = .ok (literalRows bytes body.offsets body.code) s') (context : String) :
    Code.encode literal context body.code s = .ok ⟨bytes, body.offsets, 0⟩ s' := by
  obtain ⟨items, scanned, resolved, -, layout⟩ := scanned_of_decode decoded
  have meant : ∀ (next place : Nat) t u, resolve ((offsets body.code).take body.code.length) place t = .ok u →
      t - next = distance (offsets body.code).toArray next u := by
    intro next place t u found
    obtain ⟨inside, at_target⟩ := codeSize_of_resolve found
    rw [distance_offsets body.code next (Nat.le_of_lt inside), at_target]
  have same := codeBytes_of_scanned [] meant scanned resolved rfl
  have final : promote body.code = body.code := promote_of_promoteOnce (settled_of_decode decoded).2.promoteOnce_eq
  refine encode_eq_ok.mpr ⟨⟨wellFormed_of_decode decoded, (laid_of_decode decoded).targets⟩, _, answers, ?_, ?_⟩
  · intro index member
    obtain ⟨⟨i, offset⟩, -, row⟩ := List.mem_flatMap.mp member
    obtain ⟨text, -, rfl⟩ := List.mem_map.mp row
    exact literalRow_lt _
  · rw [final, countP_same, layout]
    exact congrArg (EncodedBody.mk · (offsets body.code) 0) same

/-- A literal, a branch back to it and a branch to the next instruction. -/
theorem encode_undoes_decode_sample :
    decode (fun _ => .ok "a") [0x72, 7, 0, 0, 0x70, 0x2D, 0xF9, 0x38, 0, 0, 0, 0, 0x2A] =
        .ok ⟨[⟨⟨0x72⟩, .string "a"⟩, ⟨⟨0x2D⟩, .target 0⟩, ⟨⟨0x38⟩, .target 3⟩, ret], [0, 5, 7, 12, 13]⟩ ∧
      Code.encode (fun _ => pure 7) "" [⟨⟨0x72⟩, .string "a"⟩, ⟨⟨0x2D⟩, .target 0⟩, ⟨⟨0x38⟩, .target 3⟩, ret] () =
        .ok ⟨[0x72, 7, 0, 0, 0x70, 0x2D, 0xF9, 0x38, 0, 0, 0, 0, 0x2A], [0, 5, 7, 12, 13], 0⟩ () := by
  have found : ∃ body, decode (fun _ => .ok "a") [0x72, 7, 0, 0, 0x70, 0x2D, 0xF9, 0x38, 0, 0, 0, 0, 0x2A] = .ok body ∧
      decide (body = ⟨[⟨⟨0x72⟩, .string "a"⟩, ⟨⟨0x2D⟩, .target 0⟩, ⟨⟨0x38⟩, .target 3⟩, ret], [0, 5, 7, 12, 13]⟩) = true :=
    Outcome.exists_of_any (by decide +kernel)
  obtain ⟨body, decoded, same⟩ := found
  obtain rfl := of_decide_eq_true same
  exact ⟨decoded, encode_undoes_decode decoded rfl ""⟩

end Code

end CilWeaver
