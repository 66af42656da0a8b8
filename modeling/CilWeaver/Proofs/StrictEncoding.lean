import CilWeaver.Proofs.Layouts
import CilWeaver.Proofs.StrictWriters

/-!
Strict encoders of code. Offsets are numbers of 32 bits, rounds of promotion go on until one of them changes nothing,
and a distance has to fit its field. Valid code of less than four gigabytes has a result iff each distance fits, so there
is one for all code of less than two gigabytes.
-/

namespace CilWeaver

open Partly (narrow narrowSigned)
open StrictWriter (Agrees Presumes)

namespace Code

open Instruction

/-! Layout -/

def strictOffsetsFrom (start : Nat) : List Instruction → Option (List Nat)
  | [] => some [start]
  | i :: code => do
    let next ← narrow 32 (start + (← narrow 32 i.size))
    return start :: (← strictOffsetsFrom next code)

def strictOffsets (code : List Instruction) : Option (List Nat) := strictOffsetsFrom 0 code

def strictDistance (offsets : Array Nat) (next target : Nat) : Option Int := do return (← offsets[target]?) - (next : Int)

def strictWiden (offsets : Array Nat) (index : Nat) (i : Instruction) : Option Instruction :=
  match i.opcode.operandKind, i.operand with
  | .shortTarget, .target target => do
    let next ← offsets[index + 1]?
    if fitsShort (← strictDistance offsets next target) then return i
    else return { i with opcode := i.opcode.longForm?.getD i.opcode }
  | _, _ => some i

def strictPromoteOnce (code : List Instruction) : Option (List Instruction) := do
  let offsets ← strictOffsets code
  code.zipIdx.mapM fun (i, index) => strictWiden offsets.toArray index i

/-- Rounds go on until one of them changes nothing. If none of so many does, there is no result. -/
def strictRounds : (rounds : Nat) → List Instruction → Option (List Instruction)
  | 0, _ => none
  | rounds + 1, code => do
    let next ← strictPromoteOnce code
    if next == code then return code else strictRounds rounds next

def strictPromote (code : List Instruction) : Option (List Instruction) := strictRounds (code.length + 1) code

theorem strictOffsetsFrom_eq {start : Nat} {code : List Instruction} (small : start + codeSize code < 2 ^ 32) :
    strictOffsetsFrom start code = some (offsetsFrom start code) := by
  induction code generalizing start with
  | nil => rfl
  | cons i code ih =>
    rw [codeSize_cons] at small
    have size : narrow 32 i.size = some i.size := Partly.narrow_of_lt (by omega)
    have next : narrow 32 (start + i.size : Nat) = some (start + i.size) := Partly.narrow_of_lt (by omega)
    rw [Nat.cast_add] at next
    refine (Partly.bind_of_eq_some size _).trans ((Partly.bind_of_eq_some next _).trans ?_)
    exact (Partly.bind_of_eq_some (ih (by omega)) _).trans rfl

theorem strictOffsets_eq {code : List Instruction} (small : codeSize code < 2 ^ 32) :
    strictOffsets code = some (offsets code) := strictOffsetsFrom_eq (by omega)

theorem strictDistance_eq {table : Array Nat} {next target : Nat} (inside : target < table.size) :
    strictDistance table next target = some (distance table next target) := by
  rw [strictDistance, distance, Array.getElem?_eq_getElem inside]
  rfl

theorem strictWiden_eq {table : Array Nat} {index next : Nat} {i : Instruction} (ends : table[index + 1]? = some next)
    (inside : ∀ t ∈ i.targets, t < table.size) : strictWiden table index i = some (widen table next i) := by
  cases kind : i.opcode.operandKind with
  | shortTarget =>
    cases operand : i.operand with
    | target target =>
      have near : target < table.size := by
        refine inside target ?_
        rw [InstructionAt.targets, operand]
        exact List.mem_singleton_self target
      simp only [strictWiden, widen, kind, operand]
      refine (Partly.bind_of_eq_some ends _).trans ((Partly.bind_of_eq_some (strictDistance_eq near) _).trans ?_)
      split <;> rfl
    | _ => simp only [strictWiden, widen, kind, operand]
  | _ => simp only [strictWiden, widen, kind]

/-- Widening each instruction with its index is widening it with its end. -/
theorem mapM_strictWiden {table : Array Nat} {ends : List Nat} {code : List Instruction} (start : Nat)
    (length : ends.length = code.length) (same : ∀ index, table[start + index + 1]? = ends[index]?)
    (inside : ∀ i ∈ code, ∀ t ∈ i.targets, t < table.size) :
    ((code.zipIdx start).mapM fun (i, index) => strictWiden table index i) =
      some (List.zipWith (widen table) ends code) := by
  induction code generalizing ends start with
  | nil =>
    rw [List.zipWith_nil_right]
    rfl
  | cons i code ih =>
    cases ends with
    | nil => cases length
    | cons next ends =>
      have first := strictWiden_eq (same 0) (inside i List.mem_cons_self)
      have others := ih (start + 1) (Nat.succ.inj length)
        (fun index => by rw [Nat.add_right_comm start 1]; exact same (index + 1))
        fun j member => inside j (List.mem_cons_of_mem i member)
      rw [List.zipIdx_cons, List.mapM_cons]
      exact (Partly.bind_of_eq_some first _).trans ((Partly.bind_of_eq_some others _).trans rfl)

theorem strictPromoteOnce_eq {code : List Instruction} (valid : Valid code) (small : codeSize code < 2 ^ 32) :
    strictPromoteOnce code = some (promoteOnce code) := by
  refine (Partly.bind_of_eq_some (strictOffsets_eq small) _).trans (mapM_strictWiden 0 (length_tail_offsets code) ?_ ?_)
  · intro index
    rw [List.getElem?_toArray, List.getElem?_tail, Nat.zero_add]
  · intro i member t target
    rw [List.size_toArray, length_offsets]
    exact Nat.lt_succ_of_lt (valid.targets i member t target)

/-- So many rounds are enough to end as promotion does. -/
theorem strictRounds_eq {rounds : Nat} {code : List Instruction} (enough : code.countP isShort ≤ rounds)
    (valid : Valid code) (small : codeSize (promoteRounds rounds code) < 2 ^ 32) :
    strictRounds (rounds + 1) code = some (promoteRounds rounds code) := by
  induction rounds generalizing code with
  | zero =>
    have same := promoteOnce_promoteRounds enough
    rw [promoteRounds] at same small ⊢
    refine (Partly.bind_of_eq_some (strictPromoteOnce_eq valid small) _).trans ?_
    rw [if_pos (beq_iff_eq.mpr same)]
    rfl
  | succ rounds ih =>
    have once := strictPromoteOnce_eq valid
      (Nat.lt_of_le_of_lt (codeSize_widened (widened_promoteRounds (rounds + 1) code)) small)
    refine (Partly.bind_of_eq_some once _).trans ?_
    rw [promoteRounds] at small ⊢
    split
    · rfl
    · rename_i different
      rw [if_neg different] at small
      rcases countP_zipWith_widen (offsets code).toArray (length_tail_offsets code) with same | fewer
      · exact absurd (beq_iff_eq.mpr same) different
      · exact ih (by rw [promoteOnce]; omega) (valid.widened (widened_promoteOnce code)) small

theorem strictPromote_eq {code : List Instruction} (valid : Valid code) (small : codeSize (promote code) < 2 ^ 32) :
    strictPromote code = some (promote code) := strictRounds_eq List.countP_le_length valid small

/-! Bytes -/

section

variable {σ : Type} (literal : String → StrictWriter σ Nat) (context : String)

def strictOperand (offsets : Array Nat) (next : Nat) (kind : OperandKind) : Operand → StrictWriter σ Bytes
  | .none => return []
  | .int32 v => do
    if kind = .int32 then return leIntBytes 4 v.toInt
    if kind = .uint8 then return leIntBytes 1 (← StrictWriter.need (narrow 8 v.toInt))
    return leIntBytes 1 (← StrictWriter.need (narrowSigned 8 v.toInt))
  | .int64 v => return leIntBytes 8 v.toInt
  | .float32 bits => return u32Bytes bits
  | .float64 bits => return u64Bytes bits
  | .slot i => do
    if kind = .slot then return leBytes 2 i.toNat
    return leBytes 1 (← StrictWriter.need (narrow 8 i.toNat))
  | .token t => return u32Bytes t.value
  | .string text => do
    let index ← literal text
    if 0xFFFFFF < index then throw (.emission context (.literalIndex index))
    return leBytes 4 (0x70000000 + index)
  | .target t => do
    let distance ← StrictWriter.need (strictDistance offsets next t)
    let width := if kind = .target then 4 else 1
    return leIntBytes width (← StrictWriter.need (narrowSigned (8 * width) distance))
  | .switch ts => do
    let count ← StrictWriter.need (narrow 32 ts.length)
    let distances ← StrictWriter.need (ts.mapM fun t => do narrowSigned 32 (← strictDistance offsets next t))
    return leBytes 4 count ++ distances.flatMap (leIntBytes 4)

def strictInstruction (offsets : Array Nat) (i : Instruction) (index : Nat) : StrictWriter σ Bytes := do
  let next ← StrictWriter.need offsets[index + 1]?
  return i.opcode.bytes ++ (← strictOperand literal context offsets next i.opcode.operandKind i.operand)

/-- The bytes of instructions, the first of which has the index `start`. -/
def strictInstructions (offsets : Array Nat) (start : Nat) (code : List Instruction) : StrictWriter σ Bytes := do
  let pieces ← (code.zipIdx start).mapM fun (i, index) => strictInstruction literal context offsets i index
  return pieces.flatten

def strictEncode (code : List Instruction) : StrictWriter σ EncodedBody := do
  match Code.check code with
  | .error fault => throw (.emission context fault)
  | .ok () =>
    let final ← StrictWriter.need (strictPromote code)
    let offsets ← StrictWriter.need (strictOffsets final)
    let _ ← StrictWriter.need offsets[code.length]?
    let bytes ← strictInstructions literal context offsets.toArray 0 final
    let promoted := (code.zip final).countP fun (before, after) => before.opcode != after.opcode
    return ⟨bytes, offsets, promoted⟩

variable {literal context} {w : String → EStateM Error σ Nat} {table : Array Nat} {next : Nat}

theorem strictDistances_eq {targets : List Nat} (inside : ∀ t ∈ targets, t < table.size)
    (reaches : ∀ t ∈ targets, Fits (distance table next t)) :
    (targets.mapM fun t => do narrowSigned 32 (← strictDistance table next t)) =
      some (targets.map (distance table next)) := by
  refine Partly.mapM_eq_some fun t member => (Partly.bind_of_eq_some (strictDistance_eq (inside t member)) _).trans ?_
  exact Partly.narrowSigned_of_fits (reaches t member).1 (reaches t member).2

theorem agrees_operand (literals : ∀ text, Agrees (literal text) (w text)) {kind : OperandKind} {operand : Operand}
    (fits : operandFits kind operand = true) (inside : ∀ t ∈ operand.targets, t < table.size)
    (few : operand.targets.length < 2 ^ 32) (reaches : ∀ t ∈ operand.targets, Fits (distance table next t))
    (near : kind = .shortTarget → ∀ t ∈ operand.targets, fitsShort (distance table next t) = true) :
    Agrees (strictOperand literal context table next kind operand) (encodeOperand w context table next kind operand) := by
  unfold operandFits at fits
  split at fits
  case h_2 v =>
    simp only [Bool.and_eq_true, decide_eq_true_eq] at fits
    have low := Int32.le_iff_toInt_le.mp fits.1
    have high := Int32.le_iff_toInt_le.mp fits.2
    simp only [strictOperand, encodeOperand, reduceCtorEq, ↓reduceIte]
    exact .need (Partly.narrowSigned_of_fits low (Int.lt_of_le_of_lt high (by decide))) (.pure _)
  case h_3 v =>
    simp only [Bool.and_eq_true, decide_eq_true_eq] at fits
    have low := Int32.le_iff_toInt_le.mp fits.1
    have high := Int32.le_iff_toInt_le.mp fits.2
    have same : ((v.toInt.toNat : Nat) : Int) = v.toInt := Int.toNat_of_nonneg low
    simp only [strictOperand, encodeOperand, reduceCtorEq, ↓reduceIte]
    refine .need (Partly.narrow_of_nonneg low (Int.lt_of_le_of_lt high (by decide))) ?_
    rw [same]
    exact .pure _
  case h_8 slot =>
    have small : slot.toNat < 2 ^ 8 := Nat.lt_succ_of_le (UInt16.le_iff_toNat_le.mp (of_decide_eq_true fits))
    simp only [strictOperand, encodeOperand, reduceCtorEq, ↓reduceIte]
    exact .need (Partly.narrow_of_lt small) (.pure _)
  case h_11 text =>
    exact (literals text).bind fun index => .ite (fun _ => .throw _) fun _ => .pure _
  case h_12 t =>
    have here := List.mem_singleton_self t
    have reach := near rfl t here
    unfold fitsShort at reach
    simp only [Bool.and_eq_true, decide_eq_true_eq] at reach
    simp only [strictOperand, encodeOperand, reduceCtorEq, ↓reduceIte]
    exact .need (strictDistance_eq (inside t here)) (.need (Partly.narrowSigned_of_fits reach.1 (by omega)) (.pure _))
  case h_13 t =>
    have here := List.mem_singleton_self t
    have reach := reaches t here
    simp only [strictOperand, encodeOperand, ↓reduceIte]
    exact .need (strictDistance_eq (inside t here)) (.need (Partly.narrowSigned_of_fits reach.1 reach.2) (.pure _))
  case h_14 ts =>
    have distances := strictDistances_eq inside reaches
    rw [encodeOperand, ← List.flatMap_map]
    exact .need (Partly.narrow_of_lt few) (.need distances (.pure _))
  case h_15 => cases fits
  all_goals exact .pure _

/-- The bytes behind those of other instructions. -/
theorem agrees_instructions {ends : List Nat} {code : List Instruction} (start : Nat) (length : ends.length = code.length)
    (same : ∀ index : Nat, table[start + index + 1]? = ends[index]?)
    (each : ∀ (index : Nat) (i : Instruction) (next : Nat), code[index]? = some i → ends[index]? = some next →
      Agrees (strictOperand literal context table next i.opcode.operandKind i.operand)
        (encodeOperand w context table next i.opcode.operandKind i.operand)) (done : List Bytes) :
    Agrees (do return done.reverse.flatten ++ (← strictInstructions literal context table start code))
      (encodeInstructions w context table done ends code) := by
  induction code generalizing start ends done with
  | nil =>
    have last : encodeInstructions w context table done ends [] = pure (done.reverse.flatten ++ []) := by
      rw [List.append_nil]
      cases ends <;> rfl
    rw [last]
    exact .pure _
  | cons i code ih =>
    cases ends with
    | nil => cases length
    | cons next ends =>
      have split (bytes : Bytes) : (strictInstructions literal context table (start + 1) code >>= fun rest =>
          pure (done.reverse.flatten ++ (bytes ++ rest))) =
            strictInstructions literal context table (start + 1) code >>= fun rest =>
              pure ((bytes :: done).reverse.flatten ++ rest) := by
        simp only [List.reverse_cons, List.flatten_append, List.flatten_singleton, List.append_assoc]
      have others (bytes : Bytes) := ih (start + 1) (Nat.succ.inj length)
        (fun index => by rw [Nat.add_right_comm start 1]; exact same (index + 1))
        (fun index j last found ends => each (index + 1) j last found ends) (bytes :: done)
      have head : table[start + 1]? = some next := same 0
      have unfolded : (do return done.reverse.flatten ++ (← strictInstructions literal context table start (i :: code))) = (do
          let next ← StrictWriter.need table[start + 1]?
          let operand ← strictOperand literal context table next i.opcode.operandKind i.operand
          let rest ← strictInstructions literal context table (start + 1) code
          return done.reverse.flatten ++ ((i.opcode.bytes ++ operand) ++ rest)) := by
        simp only [strictInstructions, strictInstruction, List.zipIdx_cons, List.mapM_cons, bind_assoc, pure_bind,
          List.flatten_cons]
      rw [unfolded]
      refine .need head ((each 0 i next rfl rfl).bind fun operand => ?_)
      rw [split]
      exact others _

theorem length_targets_le {i : Instruction} (wellFormed : WellFormed i) : i.targets.length ≤ i.size := by
  have fits := wellFormed.fits
  rw [InstructionAt.targets]
  cases shape : i.operand with
  | target t => exact size_pos i
  | switch ts =>
    have kind : i.opcode.operandKind = .switch := by
      rw [shape] at fits
      cases kind : i.opcode.operandKind <;> rw [kind] at fits <;> first | rfl | cases fits
    have size : i.operandSize = 4 + 4 * ts.length := by
      unfold operandSize
      simp only [kind, shape]
    change ts.length ≤ i.size
    unfold Instruction.size
    omega
  | _ => exact Nat.zero_le _

/-- The instruction with an index, between those before it and those behind it, and its end. -/
theorem split_at {code : List Instruction} {index : Nat} {i : Instruction} (found : code[index]? = some i)
    (ends : (offsets code).tail[index]? = some next) :
    ∃ front back, code = front ++ i :: back ∧ next = codeSize front + i.size := by
  obtain ⟨bound, rfl⟩ := List.getElem?_eq_some_iff.mp found
  refine ⟨code.take index, code.drop (index + 1), ?_, ?_⟩
  · rw [List.getElem_cons_drop, List.take_append_drop]
  · rw [List.getElem?_tail, getElem?_offsets code bound, List.take_succ_eq_append_getElem bound, codeSize_append] at ends
    exact (Option.some.inj ends).symm

/-- The result is that of the encoder if the code is small enough for its offsets, and each distance fits. -/
theorem agrees_encode (literals : ∀ text, Agrees (literal text) (w text)) {code : List Instruction}
    (small : Code.check code = .ok () → codeSize (promote code) < 2 ^ 32)
    (reaches : Code.check code = .ok () → Reaches (promote code)) :
    Agrees (strictEncode literal context code) (Code.encode w context code) := by
  unfold strictEncode Code.encode
  cases checked : Code.check code with
  | error fault => exact .throw _
  | ok result =>
    have valid := valid_of_check.mp checked
    have small := small checked
    have reaches := reaches checked
    have final := promoteOnce_promote code
    have length : (promote code).length = code.length := (widened_promote code).length_eq.symm
    obtain ⟨stop, total⟩ : ∃ stop, (offsets (promote code))[code.length]? = some stop :=
      ⟨_, getElem?_offsets (promote code) (Nat.le_of_eq length.symm)⟩
    refine .need (strictPromote_eq valid small) (.need (strictOffsets_eq small) (.need total ?_))
    have operands : ∀ (index : Nat) (i : Instruction) (next : Nat), (promote code)[index]? = some i →
        (offsets (promote code)).tail[index]? = some next →
          Agrees (strictOperand literal context (offsets (promote code)).toArray next i.opcode.operandKind i.operand)
            (encodeOperand w context (offsets (promote code)).toArray next i.opcode.operandKind i.operand) := by
      intro index i next found ends
      obtain ⟨front, back, shape, rfl⟩ := split_at found ends
      have member := List.mem_of_getElem? found
      have wellFormed := valid.promote.wellFormed i member
      have size : i.size ≤ codeSize (promote code) := by
        rw [shape, codeSize_append, codeSize_cons]
        omega
      refine agrees_operand literals wellFormed.fits ?_ ?_ (reaches front i back shape) ?_
      · intro t target
        rw [List.size_toArray, length_offsets]
        exact Nat.lt_succ_of_lt (valid.promote.targets i member t target)
      · exact Nat.lt_of_le_of_lt (Nat.le_trans (length_targets_le wellFormed) size) small
      · exact fun short t target => fitsShort_of_mem final shape target wellFormed short
    have pieces := agrees_instructions 0 (length_tail_offsets (promote code))
      (fun index => by rw [List.getElem?_toArray, List.getElem?_tail, Nat.zero_add]) operands []
    refine Agrees.bind ?_ fun bytes => .pure _
    simpa using pieces

/-! A distance that does not fit -/

theorem distance_of_strictDistance {t : Nat} {d : Int} (h : strictDistance table next t = some d) :
    d = distance table next t := by
  obtain ⟨place, found, same⟩ := Option.bind_eq_some_iff.mp h
  rw [distance, found]
  exact (Option.some.inj same).symm

theorem fits_of_strictDistances {targets : List Nat} {distances : List Int}
    (h : (targets.mapM fun t => do narrowSigned 32 (← strictDistance table next t)) = some distances) :
    ∀ t ∈ targets, Fits (distance table next t) := by
  induction targets generalizing distances with
  | nil => exact List.forall_mem_nil _
  | cons t ts ih =>
    rw [List.mapM_cons] at h
    obtain ⟨d, first, h⟩ := Option.bind_eq_some_iff.mp h
    obtain ⟨others, rest, -⟩ := Option.bind_eq_some_iff.mp h
    obtain ⟨d', found, fits⟩ := Option.bind_eq_some_iff.mp first
    rw [distance_of_strictDistance found] at fits
    exact List.forall_mem_cons.mpr ⟨Partly.fits_of_narrowSigned fits, ih rest⟩

theorem presumes_operand {kind : OperandKind} {operand : Operand} {t : Nat} (member : t ∈ operand.targets) :
    Presumes (strictOperand literal context table next kind operand) (Fits (distance table next t)) := by
  cases operand with
  | target u =>
    rw [List.mem_singleton.mp member]
    refine .need_bind fun d found => .need_bind fun n fits => ?_
    rw [distance_of_strictDistance found] at fits
    have bounds := Partly.fits_of_narrowSigned fits
    have within : Fits (distance table next u) := by
      unfold Fits
      split at bounds <;> norm_num at bounds ⊢ <;> omega
    exact fun _ _ _ => within
  | switch ts =>
    exact .need_bind fun _ _ => .need_bind fun _ found => fun _ _ _ => fits_of_strictDistances found t member
  | _ => cases member

theorem presumes_encode {code : List Instruction} (accepted : Code.check code = .ok ())
    (small : codeSize (promote code) < 2 ^ 32) : Presumes (strictEncode literal context code) (Reaches (promote code)) := by
  intro s found gives front i back shape t target
  have ends : (offsets (promote code)).toArray[front.length + 1]? = some (codeSize front + i.size) := by
    rw [List.getElem?_toArray, ← List.getElem?_tail, end_of_mem shape]
  have member : (i, front.length) ∈ (promote code).zipIdx := by
    rw [List.mem_zipIdx_iff_getElem?, shape, List.getElem?_append_right (Nat.le_refl _), Nat.sub_self]
    rfl
  have instruction : Presumes (strictInstruction literal context (offsets (promote code)).toArray i front.length)
      (Fits (distance (offsets (promote code)).toArray (codeSize front + i.size) t)) := by
    refine .need_bind fun next last => ?_
    cases ends.symm.trans last
    exact (presumes_operand target).bind_left
  have whole : Presumes (strictEncode literal context code)
      (Fits (distance (offsets (promote code)).toArray (codeSize front + i.size) t)) := by
    unfold strictEncode
    rw [accepted]
    refine .need_bind fun final ended => .need_bind fun table laid => .bind_right fun _ => .bind_left ?_
    cases (strictPromote_eq (valid_of_check.mp accepted) small).symm.trans ended
    cases (strictOffsets_eq small).symm.trans laid
    exact (Presumes.mapM member instruction).bind_left
  exact whole s found gives

end

end Code

end CilWeaver
