import CilWeaver.Proofs.Consumption
import CilWeaver.Proofs.Emissions
import CilWeaver.Proofs.Weaving

/-!
Woven bodies can be read again. The code behind the prologue is laid out as it was, six bytes further on, so that the
same branches are promoted and none grows.
-/

namespace CilWeaver

namespace Code

theorem size_map (f : Nat → Nat) (i : Instruction) : Instruction.size (i.map f) = i.size := by
  obtain ⟨o, operand⟩ := i
  have same : Instruction.operandSize ⟨o, operand.map f⟩ = Instruction.operandSize ⟨o, operand⟩ := by
    unfold Instruction.operandSize
    cases o.operandKind <;> cases operand <;> simp [OperandAt.map]
  exact congrArg (o.size + ·) same

theorem codeSize_map (f : Nat → Nat) (code : List Instruction) :
    codeSize (code.map (InstructionAt.map f)) = codeSize code := by
  induction code with
  | nil => rfl
  | cons i code ih => rw [List.map_cons, codeSize_cons, codeSize_cons, ih, size_map]

theorem codeSize_behind (time : TimeOfDay) (f : Nat → Nat) (code : List Instruction) :
    codeSize (prologue time ++ code.map (InstructionAt.map f)) = 6 + codeSize code := by
  rw [codeSize_append, codeSize_map]
  rfl

/-- The code still reaches its targets behind a prologue. -/
theorem Settled.behind {code : List Instruction} (settled : Settled code) (time : TimeOfDay) :
    Settled (prologue time ++ code.map (InstructionAt.map (· + 2))) := by
  intro front i back t shape short operand
  match front, shape with
  | [], shape =>
    cases shape
    cases short
  | [_], shape =>
    cases shape
    cases short
  | first :: second :: front, shape =>
    obtain ⟨rfl, shape'⟩ := List.cons.inj shape
    obtain ⟨rfl, moved⟩ := List.cons.inj shape'
    obtain ⟨front', rest, rfl, rfl, others⟩ := List.map_eq_append_iff.mp moved
    obtain ⟨j, back', rfl, rfl, rfl⟩ := List.map_eq_cons_iff.mp others
    obtain ⟨s, operand', rfl⟩ : ∃ s, j.operand = .target s ∧ t = s + 2 := by
      obtain ⟨o, operand'⟩ := j
      cases operand' with
      | target s =>
        cases operand
        exact ⟨s, rfl, rfl⟩
      | _ => cases operand
    obtain ⟨reach, fits⟩ := settled front' j back' s rfl short operand'
    have taken : (prologue time ++ (front' ++ j :: back').map (InstructionAt.map (· + 2))).take (s + 2) =
        prologue time ++ ((front' ++ j :: back').take s).map (InstructionAt.map (· + 2)) := by
      rw [List.map_take]
      rfl
    change _ ∧ fitsShort (_ - ((codeSize (prologue time ++ _) + _ : Nat) : Int)) = true
    rw [taken, codeSize_behind, codeSize_behind, size_map]
    constructor
    · rw [List.length_append, List.length_map, prologue, List.length_cons, List.length_singleton]
      omega
    · have same : ((6 + codeSize ((front' ++ j :: back').take s) : Nat) : Int) -
          ((6 + codeSize front' + Instruction.size j : Nat) : Int) =
          (codeSize ((front' ++ j :: back').take s) : Int) - ((codeSize front' + Instruction.size j : Nat) : Int) := by omega
      rw [same]
      exact fits

end Code

namespace MethodBody

open Code

/-- A token of a table that module images have. -/
def InImage (token : Token) : Prop := token.table?.any Table.ofModule.contains = true

/-- What a reader has found out about a body that it answers. -/
structure Accepted (m : Module) (maxBodySize : Nat) (b : MethodBody) : Prop where
  size : codeSize b.code ≤ maxBodySize
  settled : Settled b.code
  operands : ∀ i ∈ b.code, ∀ token, i.operand.token? = some token → InImage token
  catches : ∀ r ∈ b.regions, ∀ type, r.kind = .catches type → Region.catchTables.any type.isIn = true
  locals : ∃ types, m.localTypes b.localSignature = .ok types

variable {m : Module} {maxBodySize : Nat} {b : MethodBody}

theorem inImage_of_catch {type : Token} (table : Region.catchTables.any type.isIn = true)
    (contained : m.contains type = true) : InImage type := by
  obtain ⟨t, member, named⟩ := List.any_eq_true.mp table
  have known := Token.table?_of_isIn named
  unfold Module.contains at contained
  unfold InImage
  rw [known] at contained ⊢
  simp only [Region.catchTables, List.mem_cons, List.not_mem_nil, or_false] at member
  rcases member with rfl | rfl | rfl
  · rfl
  · rfl
  · simp [Module.rows] at contained
    omega

/-- What a reader asks of the tokens in a body beyond what a writer does: operands name rows of tables that
    module images have, and catch clauses name types. -/
structure Loadable (b : MethodBody) : Prop where
  operands : ∀ i ∈ b.code, ∀ token, i.operand.token? = some token → InImage token
  catches : ∀ r ∈ b.regions, ∀ type, r.kind = .catches type → Region.catchTables.any type.isIn = true

theorem Readable.loadable (readable : b.Readable m maxBodySize) : b.Loadable :=
  ⟨fun i member token named => (Bool.and_eq_true_iff.mp (readable.operands i member token named)).2,
    fun r member type kind => (Bool.and_eq_true_iff.mp (readable.catches r member type kind)).1⟩

/-- Bodies that can be written are read unless they are too long, or for a token or the signature of the locals. -/
theorem Checked.readable (checked : b.Checked m) (loadable : b.Loadable) (size : codeSize (promote b.code) ≤ maxBodySize)
    (locals : ∃ types, m.localTypes b.localSignature = .ok types) (reach : maxBodySize < 2 ^ 31) :
    b.Readable m maxBodySize := by
  refine ⟨size, reaches_of_small checked.valid.promote (Nat.lt_of_le_of_lt size reach), fun i member token named => ?_,
    fun r member type kind => ?_, locals⟩
  · exact Bool.and_eq_true_iff.mpr ⟨checked.named.operands i member token named, loadable.operands i member token named⟩
  · have table := loadable.catches r member type kind
    have contained := checked.named.catches r member type kind
    exact Bool.and_eq_true_iff.mpr ⟨table, Bool.and_eq_true_iff.mpr ⟨contained, inImage_of_catch table contained⟩⟩

/-- A body can be read again if it was read and can be written. -/
theorem Accepted.readable (accepted : b.Accepted m maxBodySize) (checked : b.Checked m)
    (reach : maxBodySize < 2 ^ 31) : b.Readable m maxBodySize := by
  have final := promote_of_promoteOnce accepted.settled.promoteOnce_eq
  exact checked.readable ⟨accepted.operands, accepted.catches⟩ (final.symm ▸ accepted.size) accepted.locals reach

/-- The tokens of woven code are tokens of the code. -/
theorem exists_token_of_woven {time : TimeOfDay} {policy : DeadCodePolicy} {i : Instruction} {token : Token}
    (member : i ∈ (b.woven time policy).code) (named : i.operand.token? = some token) :
    ∃ own ∈ b.code, own.operand.token? = some token := by
  have prologue {i : Instruction} (member : i ∈ prologue time) (named : i.operand.token? = some token) : False := by
    simp only [CilWeaver.prologue, List.mem_cons, List.not_mem_nil, or_false] at member
    rcases member with rfl | rfl <;> cases named
  cases policy with
  | preserve =>
    rcases List.mem_append.mp member with front | behind
    · exact (prologue front named).elim
    · obtain ⟨own, inside, rfl⟩ := List.mem_map.mp behind
      exact ⟨own, inside, (OperandAt.token?_map _ _).symm.trans named⟩
  | strip => exact (prologue member named).elim

theorem exists_catch_of_woven {time : TimeOfDay} {policy : DeadCodePolicy} {r : Region} {type : Token}
    (member : r ∈ (b.woven time policy).regions) (kind : r.kind = .catches type) : ∃ own ∈ b.regions, own.kind = .catches type := by
  cases policy with
  | preserve =>
    obtain ⟨own, inside, rfl⟩ := List.mem_map.mp member
    refine ⟨own, inside, ?_⟩
    obtain ⟨kind', _, _, _, _⟩ := own
    cases kind' <;> cases kind
    rfl
  | strip => exact absurd member List.not_mem_nil

theorem Accepted.woven (accepted : b.Accepted m maxBodySize) (room : codeSize b.code + 6 ≤ maxBodySize)
    (time : TimeOfDay) (policy : DeadCodePolicy) : (b.woven time policy).Accepted m maxBodySize := by
  have operands : ∀ i ∈ (b.woven time policy).code, ∀ token, i.operand.token? = some token → InImage token := by
    intro i member token named
    obtain ⟨own, inside, same⟩ := exists_token_of_woven member named
    exact accepted.operands own inside token same
  have catches : ∀ r ∈ (b.woven time policy).regions, ∀ type, r.kind = .catches type →
      Region.catchTables.any type.isIn = true := by
    intro r member type kind
    obtain ⟨own, inside, same⟩ := exists_catch_of_woven member kind
    exact accepted.catches own inside type same
  cases policy with
  | preserve =>
    refine ⟨?_, accepted.settled.behind time, operands, catches, accepted.locals⟩
    have size := codeSize_behind time (· + 2) b.code
    change codeSize (prologue time ++ _) ≤ _
    omega
  | strip =>
    have none : Settled [] := fun front i back t shape => by simp at shape
    refine ⟨?_, none.behind time, operands, catches, accepted.locals⟩
    change 6 ≤ maxBodySize
    omega

end MethodBody

/-! The layout of the code behind a prologue -/

namespace Code

/-- The code behind the two instructions of a prologue. -/
def moved (time : TimeOfDay) (code : List Instruction) : List Instruction :=
  prologue time ++ code.map (InstructionAt.map (· + 2))

theorem offsetsFrom_map (f : Nat → Nat) (start further : Nat) (code : List Instruction) :
    offsetsFrom (further + start) (code.map (InstructionAt.map f)) = (offsetsFrom start code).map (further + ·) := by
  induction code generalizing start with
  | nil => rfl
  | cons i code ih =>
    rw [List.map_cons, offsetsFrom, offsetsFrom, List.map_cons, size_map, Nat.add_assoc, ih]

theorem offsets_moved (time : TimeOfDay) (code : List Instruction) :
    offsets (moved time code) = 0 :: 5 :: (offsets code).map (6 + ·) := by
  have behind := offsetsFrom_map (· + 2) 0 6 code
  change 0 :: 5 :: offsetsFrom (6 + 0) (code.map (InstructionAt.map (· + 2))) = _
  rw [behind]
  rfl

/-- An instruction of the moved code is six bytes further on. -/
theorem offset_moved (time : TimeOfDay) (code : List Instruction) {target : Nat} (inside : target ≤ code.length) :
    (offsets (moved time code)).toArray[target + 2]?.getD 0 = 6 + (offsets code).toArray[target]?.getD 0 := by
  have bound : target < (offsets code).length := by
    rw [length_offsets]
    omega
  rw [offsets_moved, List.getElem?_toArray, List.getElem?_toArray, List.getElem?_cons_succ, List.getElem?_cons_succ,
    List.getElem?_map, List.getElem?_eq_getElem bound]
  rfl

theorem distance_moved (time : TimeOfDay) (code : List Instruction) (next : Nat) {target : Nat}
    (inside : target ≤ code.length) :
    distance (offsets (moved time code)).toArray (6 + next) (target + 2) = distance (offsets code).toArray next target := by
  unfold distance
  rw [offset_moved time code inside]
  omega

theorem widen_moved (time : TimeOfDay) (code : List Instruction) (next : Nat) {i : Instruction}
    (inside : ∀ t ∈ i.targets, t < code.length) :
    widen (offsets (moved time code)).toArray (6 + next) (i.map (· + 2)) =
      (widen (offsets code).toArray next i).map (· + 2) := by
  obtain ⟨opcode, operand⟩ := i
  unfold widen InstructionAt.map
  cases opcode.operandKind with
  | shortTarget =>
    cases operand with
    | target target =>
      have same := distance_moved time code next (Nat.le_of_lt (inside target List.mem_cons_self))
      simp only [OperandAt.map, same]
      by_cases near : fitsShort (distance (offsets code).toArray next target) = true
      · simp only [near, ↓reduceIte]
      · simp only [near, Bool.false_eq_true, ↓reduceIte]
    | _ => simp only [OperandAt.map]
  | _ => simp only

theorem zipWith_moved (time : TimeOfDay) (code : List Instruction) (ends : List Nat) {rest : List Instruction}
    (inside : ∀ i ∈ rest, ∀ t ∈ i.targets, t < code.length) :
    List.zipWith (widen (offsets (moved time code)).toArray) (ends.map (6 + ·)) (rest.map (InstructionAt.map (· + 2))) =
      (List.zipWith (widen (offsets code).toArray) ends rest).map (InstructionAt.map (· + 2)) := by
  induction ends generalizing rest with
  | nil => rfl
  | cons next ends ih =>
    cases rest with
    | nil => rfl
    | cons i rest =>
      have own := inside i List.mem_cons_self
      have others := ih fun j member => inside j (List.mem_cons_of_mem i member)
      rw [List.map_cons, List.map_cons, List.zipWith_cons_cons, List.zipWith_cons_cons, List.map_cons, others,
        widen_moved time code next own]

theorem promoteOnce_moved (time : TimeOfDay) {code : List Instruction} (inside : ∀ i ∈ code, ∀ t ∈ i.targets, t < code.length) :
    promoteOnce (moved time code) = moved time (promoteOnce code) := by
  have behind := zipWith_moved time code (offsets code).tail inside
  have starts : (offsets code).map (6 + ·) = 6 :: (offsets code).tail.map (6 + ·) := by
    rw [offsets, offsetsFrom_eq_cons]
    rfl
  have ends : (offsets (moved time code)).tail = 5 :: 6 :: (offsets code).tail.map (6 + ·) := by
    rw [offsets_moved, List.tail_cons, starts]
  unfold promoteOnce
  dsimp only
  rw [ends]
  change _ :: _ :: List.zipWith (widen (offsets (moved time code)).toArray) ((offsets code).tail.map (6 + ·))
    (code.map (InstructionAt.map (· + 2))) = _
  rw [behind]
  rfl

theorem moved_inj (time : TimeOfDay) {code code' : List Instruction} : moved time code = moved time code' ↔ code = code' := by
  have shift : Function.Injective (InstructionAt.map (· + 2) : Instruction → Instruction) := by
    rintro ⟨opcode, operand⟩ ⟨opcode', operand'⟩ same
    obtain ⟨rfl, operands⟩ := InstructionAt.mk.inj same
    have targets : Function.Injective (fun t : Nat => t + 2) := fun a b h => Nat.add_right_cancel h
    cases operand <;> cases operand' <;> simp_all [OperandAt.map, targets.list_map.eq_iff]
  unfold moved
  rw [List.append_cancel_left_eq, shift.list_map.eq_iff]

theorem promoteRounds_moved (time : TimeOfDay) (rounds : Nat) {code : List Instruction}
    (inside : ∀ i ∈ code, ∀ t ∈ i.targets, t < code.length) :
    promoteRounds rounds (moved time code) = moved time (promoteRounds rounds code) := by
  induction rounds generalizing code with
  | zero => rfl
  | succ rounds ih =>
    have same : (promoteOnce (moved time code) == moved time code) = (promoteOnce code == code) := by
      rw [promoteOnce_moved time inside, Bool.eq_iff_iff, beq_iff_eq, beq_iff_eq, moved_inj]
    have others : ∀ i ∈ promoteOnce code, ∀ t ∈ i.targets, t < (promoteOnce code).length := by
      intro i member t target
      obtain ⟨before, own, widened⟩ := forall₂_of_mem (widened_promoteOnce code).flip member
      rw [length_promoteOnce]
      rw [InstructionAt.targets, Instruction.Widened.operand_eq widened] at target
      exact inside before own t target
    unfold promoteRounds
    dsimp only
    rw [same]
    by_cases final : (promoteOnce code == code) = true
    · rw [if_pos final, if_pos final]
    · rw [if_neg final, if_neg final, promoteOnce_moved time inside]
      exact ih others

/-- More rounds than instructions change nothing. -/
theorem promoteRounds_add (rounds : Nat) (code : List Instruction) : promoteRounds (code.length + rounds) code = promote code := by
  have step (n : Nat) : ∀ code : List Instruction, promoteOnce (promoteRounds n code) = promoteRounds n code →
      ∀ more, promoteRounds (n + more) code = promoteRounds n code := by
    induction n with
    | zero =>
      intro code final more
      change promoteOnce code = code at final
      cases more with
      | zero => rfl
      | succ more =>
        have same : (promoteOnce code == code) = true := beq_iff_eq.mpr final
        rw [Nat.zero_add, promoteRounds]
        exact if_pos same
    | succ n ih =>
      intro code final more
      rw [Nat.succ_add]
      unfold promoteRounds at final ⊢
      dsimp only at final ⊢
      by_cases same : (promoteOnce code == code) = true
      · rw [if_pos same, if_pos same]
      · rw [if_neg same] at final
        rw [if_neg same, if_neg same]
        exact ih _ final more
  exact step code.length code (promoteOnce_promote code) rounds

/-- The same branches are promoted behind a prologue. -/
theorem promote_moved (time : TimeOfDay) {code : List Instruction} (inside : ∀ i ∈ code, ∀ t ∈ i.targets, t < code.length) :
    promote (moved time code) = moved time (promote code) := by
  have count : (moved time code).length = code.length + 2 := by
    unfold moved prologue
    rw [List.length_append, List.length_map, List.length_cons, List.length_singleton]
    omega
  unfold promote
  rw [count, promoteRounds_moved time _ inside, promoteRounds_add]
  rfl

end Code

end CilWeaver
