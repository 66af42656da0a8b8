import CilWeaver.Proofs.Decoding

/-!
Promotion finds the smallest layout. Making branches long only moves instructions away from each other,
so a branch that is out of reach at some point stays so, and no layout in which every short branch
reaches its target can do without a branch that promotion has widened.
-/

namespace CilWeaver

namespace Code

open Instruction Step

/-- The short branches at the places, in their long form. -/
def lengthen (places : Finset Nat) (code : List Instruction) : List Instruction :=
  code.mapIdx fun index i => if index ∈ places ∧ i.isShort = true then i.long else i

/-- The places at which promotion changes the code. -/
def promotedPlaces (code : List Instruction) : Finset Nat :=
  (Finset.range code.length).filter fun index => (promote code)[index]? ≠ code[index]?

/-- How far it is to a target from the end of the instruction with an index. -/
def displacement (code : List Instruction) (index target : Nat) : Int :=
  ((offsets code)[target]?.getD 0 : Nat) - ((offsets code)[index + 1]?.getD 0 : Nat)

/-- Every short branch reaches its target. -/
def ShortReach (code : List Instruction) : Prop :=
  ∀ index i target, code[index]? = some i → i.isShort = true → i.operand = .target target →
    fitsShort (displacement code index target) = true

/-! Widening -/

theorem widened_getElem? {before after : List Instruction} (widened : List.Forall₂ Widened before after) {index : Nat}
    {i : Instruction} (found : before[index]? = some i) : ∃ j, after[index]? = some j ∧ Widened i j := by
  obtain ⟨bound, rfl⟩ := List.getElem?_eq_some_iff.mp found
  have inside : index < after.length := widened.length_eq ▸ bound
  exact ⟨after[index], List.getElem?_eq_getElem inside, (List.forall₂_iff_get.mp widened).2 index bound inside⟩

theorem forall₂_widened {before after : List Instruction} (length : before.length = after.length)
    (each : ∀ (index : Nat) i j, before[index]? = some i → after[index]? = some j → Widened i j) :
    List.Forall₂ Widened before after :=
  List.forall₂_iff_get.mpr ⟨length, fun index bound inside =>
    each index _ _ (List.getElem?_eq_getElem bound) (List.getElem?_eq_getElem inside)⟩

theorem size_widened {before after : Instruction} (widened : Widened before after) : before.size ≤ after.size := by
  rcases widened with rfl | ⟨short, -, rfl⟩
  · exact Nat.le_refl _
  · have narrow : before.operandSize = 1 := by
      rw [operandSize, beq_iff_eq.mp short]
      rfl
    have wide : before.long.operandSize = 4 := by
      rw [operandSize, (long_of_short short).1]
      rfl
    have opcode : before.opcode.size ≤ 2 := by
      unfold OpCode.size
      split <;> omega
    rw [size, size, narrow, wide]
    omega

theorem codeSize_widened {before after : List Instruction} (widened : List.Forall₂ Widened before after) :
    codeSize before ≤ codeSize after := by
  induction widened with
  | nil => exact Nat.le_refl _
  | cons first others ih => exact Nat.add_le_add (size_widened first) ih

theorem displacement_eq (code : List Instruction) {index target : Nat} (inside : index < code.length)
    (target_le : target ≤ code.length) :
    displacement code index target = (codeSize (code.take target) : Int) - codeSize (code.take (index + 1)) := by
  rw [displacement, getElem?_offsets code target_le, getElem?_offsets code (Nat.succ_le_of_lt inside)]
  rfl

/-- The code between two positions. -/
theorem codeSize_between (code : List Instruction) {first last : Nat} (order : first ≤ last) :
    codeSize (code.take last) = codeSize (code.take first) + codeSize ((code.take last).drop first) := by
  have whole := codeSize_append ((code.take last).take first) ((code.take last).drop first)
  rwa [List.take_append_drop, List.take_take, Nat.min_eq_left order] at whole

/-- A branch that reaches its target in a larger layout reaches it in the smaller one. -/
theorem fitsShort_widened {before after : List Instruction} (widened : List.Forall₂ Widened before after)
    {index target : Nat} (inside : index < before.length) (target_le : target ≤ before.length)
    (fits : fitsShort (displacement after index target) = true) :
    fitsShort (displacement before index target) = true := by
  have length := widened.length_eq
  have between := fun first last : Nat =>
    codeSize_widened (List.forall₂_drop first (List.forall₂_take last widened))
  rw [displacement_eq after (length ▸ inside) (length ▸ target_le)] at fits
  rw [displacement_eq before inside target_le]
  unfold fitsShort at fits ⊢
  simp only [Bool.and_eq_true, decide_eq_true_eq] at fits ⊢
  rcases Nat.le_total target (index + 1) with backward | forward
  · have mono := between target (index + 1)
    have small := codeSize_between before backward
    have large := codeSize_between after backward
    omega
  · have mono := between (index + 1) target
    have small := codeSize_between before forward
    have large := codeSize_between after forward
    omega

/-- What a round does to an instruction. -/
theorem widen_far (offsets : Array Nat) (next : Nat) (i : Instruction) :
    widen offsets next i = i ∨ (widen offsets next i = i.long ∧ i.isShort = true ∧ ∃ target, i.operand = .target target ∧
      fitsShort (distance offsets next target) = false) := by
  unfold widen
  split
  · rename_i target kind operand
    split
    · exact .inl rfl
    · rename_i far
      exact .inr ⟨rfl, beq_iff_eq.mpr kind, target, operand, Bool.eq_false_iff.mpr far⟩
  · exact .inl rfl

theorem target_of_short {i : Instruction} (wellFormed : WellFormed i) (short : i.isShort = true) :
    ∃ target, i.operand = .target target := by
  have fits := wellFormed.fits
  rw [beq_iff_eq.mp short] at fits
  cases operand : i.operand with
  | target target => exact ⟨target, rfl⟩
  | _ =>
    rw [operand] at fits
    cases fits

theorem Valid.target_lt {code : List Instruction} (valid : Valid code) {index target : Nat} {i : Instruction}
    (found : code[index]? = some i) (operand : i.operand = .target target) : target < code.length := by
  refine valid.targets i (List.mem_of_getElem? found) target ?_
  rw [InstructionAt.targets, operand]
  exact List.mem_singleton_self target

/-- A round of promotion stays below a layout in which every short branch reaches its target. -/
theorem widened_promoteOnce_of_reach {code goal : List Instruction} (valid : Valid code)
    (below : List.Forall₂ Widened code goal) (reach : ShortReach goal) :
    List.Forall₂ Widened (promoteOnce code) goal := by
  refine forall₂_widened ((length_promoteOnce code).trans below.length_eq) fun index i j found there => ?_
  obtain ⟨inside, -⟩ := List.getElem?_eq_some_iff.mp found
  rw [length_promoteOnce] at inside
  obtain ⟨j', there', widened⟩ := widened_getElem? below (List.getElem?_eq_getElem inside)
  obtain rfl := Option.some.inj (there.symm.trans there')
  have next : (offsets code).tail[index]? = some (codeSize (code.take (index + 1))) := by
    rw [List.getElem?_tail, getElem?_offsets code (Nat.succ_le_of_lt inside)]
  rw [promoteOnce, List.getElem?_zipWith, next, List.getElem?_eq_getElem inside] at found
  obtain rfl := Option.some.inj found
  rcases widen_far (offsets code).toArray (codeSize (code.take (index + 1))) code[index] with same | ⟨long, short, target, operand, far⟩
  · rw [same]
    exact widened
  · rcases widened with same | ⟨-, -, longer⟩
    · have target_lt := valid.target_lt (List.getElem?_eq_getElem inside) operand
      have fits := fitsShort_widened below inside (Nat.le_of_lt target_lt)
        (reach index j target there (same ▸ short) (same ▸ operand))
      rw [displacement_eq code inside (Nat.le_of_lt target_lt),
        ← distance_offsets code (codeSize (code.take (index + 1))) (Nat.le_of_lt target_lt), far] at fits
      cases fits
    · rw [long, longer]
      exact .refl _

theorem widened_promoteRounds_of_reach (rounds : Nat) {code goal : List Instruction} (valid : Valid code)
    (below : List.Forall₂ Widened code goal) (reach : ShortReach goal) :
    List.Forall₂ Widened (promoteRounds rounds code) goal := by
  induction rounds generalizing code with
  | zero => exact below
  | succ rounds ih =>
    rw [promoteRounds]
    split
    · exact below
    · exact ih (valid.widened (widened_promoteOnce code)) (widened_promoteOnce_of_reach valid below reach)

/-- The rounds end in a layout that one more round does not change. -/
theorem exists_rounds (rounds : Nat) (code : List Instruction) :
    ∃ count ≤ rounds, promoteOnce^[count] code = promoteRounds rounds code := by
  induction rounds generalizing code with
  | zero => exact ⟨0, Nat.le_refl 0, rfl⟩
  | succ rounds ih =>
    rw [promoteRounds]
    split
    · exact ⟨0, Nat.zero_le _, rfl⟩
    · obtain ⟨count, few, same⟩ := ih (promoteOnce code)
      exact ⟨count + 1, Nat.succ_le_succ few, same⟩

/-! Sets of branches -/

theorem getElem?_lengthen (places : Finset Nat) (code : List Instruction) (index : Nat) :
    (lengthen places code)[index]? = code[index]?.map fun i => if index ∈ places ∧ i.isShort = true then i.long else i :=
  List.getElem?_mapIdx

theorem length_lengthen (places : Finset Nat) (code : List Instruction) : (lengthen places code).length = code.length :=
  List.length_mapIdx

/-- More long branches make a larger layout. -/
theorem widened_lengthen {places more : Finset Nat} (subset : places ⊆ more) {code : List Instruction} (valid : Valid code) :
    List.Forall₂ Widened (lengthen places code) (lengthen more code) := by
  refine forall₂_widened (by rw [length_lengthen, length_lengthen]) fun index i j before after => ?_
  rw [getElem?_lengthen, Option.map_eq_some_iff] at before after
  obtain ⟨own, found, rfl⟩ := before
  obtain ⟨own', found', rfl⟩ := after
  obtain rfl := Option.some.inj (found.symm.trans found')
  have target := target_of_short (valid.wellFormed own (List.mem_of_getElem? found))
  by_cases first : index ∈ places ∧ own.isShort = true
  · rw [if_pos first, if_pos ⟨subset first.1, first.2⟩]
    exact .refl _
  · rw [if_neg first]
    by_cases second : index ∈ more ∧ own.isShort = true
    · rw [if_pos second]
      exact .inr ⟨second.2, target second.2, rfl⟩
    · rw [if_neg second]
      exact .refl _

theorem lengthen_empty (code : List Instruction) : lengthen ∅ code = code := by
  refine List.ext_getElem? fun index => ?_
  rw [getElem?_lengthen]
  simp

theorem getElem?_promote (code : List Instruction) {index : Nat} {i : Instruction} (found : code[index]? = some i) :
    (index ∉ promotedPlaces code ∧ (promote code)[index]? = some i) ∨
      (index ∈ promotedPlaces code ∧ i.isShort = true ∧ (promote code)[index]? = some i.long) := by
  obtain ⟨inside, -⟩ := List.getElem?_eq_some_iff.mp found
  obtain ⟨j, after, widened⟩ := widened_getElem? (widened_promote code) found
  rw [promotedPlaces, Finset.mem_filter, Finset.mem_range, found, after, ne_eq, Option.some.injEq]
  rcases widened with rfl | ⟨short, -, rfl⟩
  · exact .inl ⟨fun h => h.2 rfl, rfl⟩
  · refine .inr ⟨⟨inside, fun same => ?_⟩, short, rfl⟩
    have long := long_not_short short
    rw [same, short] at long
    cases long

theorem promote_eq_lengthen (code : List Instruction) : promote code = lengthen (promotedPlaces code) code := by
  refine List.ext_getElem? fun index => ?_
  rw [getElem?_lengthen]
  cases found : code[index]? with
  | none =>
    rw [List.getElem?_eq_none_iff] at found
    rw [List.getElem?_eq_none (by rw [← (widened_promote code).length_eq]; exact found)]
    rfl
  | some i =>
    rcases getElem?_promote code found with ⟨kept, same⟩ | ⟨promoted, short, same⟩
    · rw [same, Option.map_some, if_neg fun h => kept h.1]
    · rw [same, Option.map_some, if_pos ⟨promoted, short⟩]

/-- In the final layout every short branch reaches its target. -/
theorem shortReach_promote {code : List Instruction} (valid : Valid code) : ShortReach (promote code) := by
  intro index i target found short operand
  obtain ⟨inside, -⟩ := List.getElem?_eq_some_iff.mp found
  have target_lt := valid.promote.target_lt found operand
  have next : (offsets (promote code)).tail[index]? = some (codeSize ((promote code).take (index + 1))) := by
    rw [List.getElem?_tail, getElem?_offsets _ (Nat.succ_le_of_lt inside)]
  rw [displacement_eq _ inside (Nat.le_of_lt target_lt), ← distance_offsets _ _ (Nat.le_of_lt target_lt)]
  exact fitsShort_of_final (promoteOnce_promote code) found next short operand

/-- No set of long branches will do that lacks a promoted one. -/
theorem promotedPlaces_subset {code : List Instruction} (valid : Valid code) {places : Finset Nat}
    (reach : ShortReach (lengthen places code)) : promotedPlaces code ⊆ places := by
  intro index member
  have start : List.Forall₂ Widened code (lengthen places code) := by
    have widened := widened_lengthen (Finset.empty_subset places) valid
    rwa [lengthen_empty] at widened
  have below := widened_promoteRounds_of_reach code.length valid start reach
  have inside : index < code.length := Finset.mem_range.mp (Finset.mem_filter.mp member).1
  rcases getElem?_promote code (List.getElem?_eq_getElem inside) with ⟨kept, -⟩ | ⟨-, short, promoted⟩
  · exact absurd member kept
  · obtain ⟨j, there, widened⟩ := widened_getElem? below promoted
    rw [getElem?_lengthen, List.getElem?_eq_getElem inside, Option.map_some, Option.some.injEq] at there
    by_contra outside
    rw [if_neg fun h => outside h.1] at there
    rcases widened with same | ⟨again, -, -⟩
    · have long := long_not_short short
      rw [← same, ← there, short] at long
      cases long
    · rw [long_not_short short] at again
      cases again

/-- Back in its short form, a promoted branch would not reach its target. -/
theorem promoted_far {code : List Instruction} (valid : Valid code) {index target : Nat} {i : Instruction}
    (member : index ∈ promotedPlaces code) (found : code[index]? = some i) (operand : i.operand = .target target) :
    fitsShort (displacement (lengthen ((promotedPlaces code).erase index) code) index target) = false := by
  by_contra near
  rw [Bool.not_eq_false] at near
  suffices reach : ShortReach (lengthen ((promotedPlaces code).erase index) code) by
    exact Finset.notMem_erase index _ (promotedPlaces_subset valid reach member)
  have smaller := widened_lengthen (Finset.erase_subset index (promotedPlaces code)) valid
  rw [← promote_eq_lengthen] at smaller
  intro other j target' there short operand'
  have own := there
  rw [getElem?_lengthen, Option.map_eq_some_iff] at own
  obtain ⟨k, before, shape⟩ := own
  by_cases same : other = index
  · subst same
    obtain rfl := Option.some.inj (before.symm.trans found)
    rw [if_neg fun h => Finset.notMem_erase other _ h.1] at shape
    subst shape
    rw [operand] at operand'
    cases operand'
    exact near
  · rcases getElem?_promote code before with ⟨kept, final⟩ | ⟨promoted, wasShort, -⟩
    · rw [if_neg fun h => kept (Finset.mem_of_mem_erase h.1)] at shape
      subst shape
      obtain ⟨inside, -⟩ := List.getElem?_eq_some_iff.mp there
      have target_lt := valid.target_lt before operand'
      exact fitsShort_widened smaller inside (by rw [length_lengthen]; exact Nat.le_of_lt target_lt)
        (shortReach_promote valid other k target' final short operand')
    · rw [if_pos ⟨Finset.mem_erase.mpr ⟨same, promoted⟩, wasShort⟩] at shape
      have long := long_not_short wasShort
      rw [shape, short] at long
      cases long

theorem promoted_far_final {code : List Instruction} (valid : Valid code) {index target : Nat} {i : Instruction}
    (member : index ∈ promotedPlaces code) (found : code[index]? = some i) (operand : i.operand = .target target) :
    fitsShort (displacement (promote code) index target) = false := by
  by_contra near
  rw [Bool.not_eq_false] at near
  have smaller := widened_lengthen (Finset.erase_subset index (promotedPlaces code)) valid
  rw [← promote_eq_lengthen] at smaller
  obtain ⟨inside, -⟩ := List.getElem?_eq_some_iff.mp found
  have target_lt := valid.target_lt found operand
  have fits := fitsShort_widened smaller (by rw [length_lengthen]; exact inside)
    (by rw [length_lengthen]; exact Nat.le_of_lt target_lt) near
  rw [promoted_far valid member found operand] at fits
  cases fits

theorem countP_eq_count {α : Type} (p : α → Bool) (items : List α) :
    items.countP p = Nat.count (fun index => items[index]?.any p = true) items.length := by
  induction items with
  | nil => rfl
  | cons a items ih =>
    rw [List.countP_cons, ih, List.length_cons, Nat.count_succ']
    rfl

/-- The number of promotions that the encoder reports. -/
theorem countP_promoted (code : List Instruction) :
    ((code.zip (promote code)).countP fun (before, after) => before.opcode != after.opcode) =
      (promotedPlaces code).card := by
  have length : (code.zip (promote code)).length = code.length := by
    rw [List.length_zip, ← (widened_promote code).length_eq, Nat.min_self]
  rw [countP_eq_count, Nat.count_eq_card_filter_range, length, promotedPlaces]
  refine congrArg Finset.card (Finset.filter_congr fun index inside => ?_)
  obtain ⟨i, before⟩ : ∃ i, code[index]? = some i := ⟨_, List.getElem?_eq_getElem (Finset.mem_range.mp inside)⟩
  have pair : ∀ j, (promote code)[index]? = some j → (code.zip (promote code))[index]? = some (i, j) :=
    fun j after => by rw [List.getElem?_zip_eq_some]; exact ⟨before, after⟩
  rcases getElem?_promote code before with ⟨-, after⟩ | ⟨promoted, short, after⟩
  · rw [pair i after, before, after]
    simp
  · have other : i.opcode ≠ i.long.opcode := by
      intro same
      have kind := (long_of_short short).1
      rw [← same, beq_iff_eq.mp short] at kind
      cases kind
    rw [pair i.long after]
    exact iff_of_true (bne_iff_ne.mpr other) (Finset.mem_filter.mp promoted).2

/-! The stored distances -/

/-- The signed number in some bytes of data. -/
def storedDistance (bytes : Bytes) (place width : Nat) : Int :=
  (leNat ((bytes.drop place).take width) : Int).bmod (256 ^ width)

theorem storedDistance_append {front back : Bytes} {width : Nat} {n : Int} (low : -256 ^ width ≤ 2 * n)
    (high : 2 * n < 256 ^ width) :
    storedDistance (front ++ (leIntBytes width n ++ back)) front.length width = n := by
  have field : (leIntBytes width n ++ back).take width = leIntBytes width n := by
    rw [List.take_left' (length_leIntBytes width n)]
  have pos : (0 : Int) < 256 ^ width := by positivity
  have number : (((n % 256 ^ width).toNat % 256 ^ width : Nat) : Int) = n % ((256 ^ width : Nat) : Int) := by
    have low' := Int.emod_nonneg n (Int.ne_of_gt pos)
    have high' := Int.emod_lt_of_pos n pos
    push_cast
    rw [Int.toNat_of_nonneg low', Int.emod_emod]
  rw [storedDistance, List.drop_left, field, leIntBytes, leNat_leBytes, number, Int.emod_bmod]
  exact Int.bmod_eq_of_le_mul_two (by push_cast; omega) (by push_cast; omega)

/-- Where the distance of a target stands in an instruction. -/
def fieldPlace (i : Instruction) (number : Nat) : Nat :=
  match i.operand with
  | .switch _ => i.opcode.size + 4 + 4 * number
  | _ => i.opcode.size

def fieldWidth (i : Instruction) : Nat := if i.isShort then 1 else 4

theorem codeBytes_append (offsets : Array Nat) (start : Nat) (front back : List Instruction) (indices : List Nat) :
    codeBytes offsets start (front ++ back) indices = codeBytes offsets start front indices ++
      codeBytes offsets (start + codeSize front) back (indices.drop (literals front).length) := by
  induction front generalizing start indices with
  | nil => rfl
  | cons i front ih =>
    have split : (literals (i :: front)).length = i.operand.literals.length + (literals front).length := by
      rw [literals, List.flatMap_cons, List.length_append]
      rfl
    rw [List.cons_append]
    simp only [codeBytes]
    rw [ih, codeSize_cons, split, List.drop_drop, ← Nat.add_assoc]
    simp only [List.append_assoc]

/-- The bytes of an instruction hold the distance of each target. -/
theorem exists_field {i : Instruction} (wellFormed : WellFormed i) (distance : Nat → Int) (index : Nat)
    {number target : Nat} (named : i.targets[number]? = some target) :
    ∃ front back, i.opcode.bytes ++ operandBytes i.opcode.operandKind distance index i.operand =
      front ++ (leIntBytes (fieldWidth i) (distance target) ++ back) ∧ front.length = fieldPlace i number := by
  have fits := wellFormed.fits
  rw [InstructionAt.targets] at named
  unfold fieldWidth fieldPlace Instruction.isShort
  cases operand : i.operand with
  | target only =>
    rw [operand] at fits named
    obtain ⟨bound, rfl⟩ := List.getElem?_eq_some_iff.mp named
    obtain rfl : number = 0 := Nat.lt_one_iff.mp bound
    refine ⟨i.opcode.bytes, [], ?_, OpCode.length_bytes _⟩
    rw [List.append_nil, operandBytes]
    cases kind : i.opcode.operandKind with
    | target | shortTarget => rfl
    | _ =>
      rw [kind] at fits
      cases fits
  | switch targets =>
    rw [operand] at fits named
    have kind : i.opcode.operandKind = .switch := by
      cases kind : i.opcode.operandKind with
      | switch => rfl
      | _ =>
        rw [kind] at fits
        cases fits
    have member : targets[number]? = some target := named
    obtain ⟨bound, rfl⟩ := List.getElem?_eq_some_iff.mp member
    have split : targets = targets.take number ++ targets[number] :: targets.drop (number + 1) := by
      rw [List.getElem_cons_drop, List.take_append_drop]
    refine ⟨i.opcode.bytes ++ (leBytes 4 targets.length ++ ((targets.take number).map distance).flatMap (leIntBytes 4)),
      ((targets.drop (number + 1)).map distance).flatMap (leIntBytes 4), ?_, ?_⟩
    · have table : targets.map distance =
          (targets.take number).map distance ++ distance targets[number] :: (targets.drop (number + 1)).map distance := by
        rw [← List.map_cons, ← List.map_append, ← split]
      rw [operandBytes, table, kind, List.flatMap_append, List.flatMap_cons]
      simp only [List.append_assoc]
      rfl
    · rw [List.length_append, List.length_append, length_leBytes, length_flatMap_leIntBytes, List.length_map,
        List.length_take_of_le (Nat.le_of_lt bound), OpCode.length_bytes, Nat.add_assoc]
  | _ =>
    rw [operand] at named
    cases named

/-- What is stored for a target is its distance, if it fits the field. -/
theorem storedDistance_codeBytes {code : List Instruction} (wellFormed : ∀ i ∈ code, WellFormed i) (offsets : Array Nat)
    (indices : List Nat) {index number target : Nat} {i : Instruction} (found : code[index]? = some i)
    (named : i.targets[number]? = some target)
    (low : -256 ^ fieldWidth i ≤ 2 * distance offsets (codeSize (code.take (index + 1))) target)
    (high : 2 * distance offsets (codeSize (code.take (index + 1))) target < 256 ^ fieldWidth i) :
    storedDistance (codeBytes offsets 0 code indices) (codeSize (code.take index) + fieldPlace i number) (fieldWidth i) =
      distance offsets (codeSize (code.take (index + 1))) target := by
  obtain ⟨inside, rfl⟩ := List.getElem?_eq_some_iff.mp found
  have next : codeSize (code.take (index + 1)) = 0 + codeSize (code.take index) + code[index].size := by
    rw [List.take_succ_eq_append_getElem inside, codeSize_append, Nat.zero_add]
    rfl
  have split : code = code.take index ++ code[index] :: code.drop (index + 1) := by
    rw [List.getElem_cons_drop, List.take_append_drop]
  have size := length_codeBytes (fun i member => wellFormed i (List.mem_of_mem_take (i := index) member)) offsets 0 indices
  have bytes := codeBytes_append offsets 0 (code.take index) (code[index] :: code.drop (index + 1)) indices
  rw [← split] at bytes
  simp only [codeBytes] at bytes
  rw [← next] at bytes
  obtain ⟨front, back, own, place⟩ := exists_field (wellFormed _ (List.getElem_mem inside))
    (distance offsets (codeSize (code.take (index + 1)))) _ named
  rw [own] at bytes
  rw [bytes, ← size, ← place, ← List.length_append]
  simp only [List.append_assoc]
  rw [← List.append_assoc]
  exact storedDistance_append low high

/-- A distance in the final layout fits its field. -/
theorem displacement_bounds {code : List Instruction} (valid : Valid code) (small : codeSize (promote code) < 2 ^ 31)
    {index number target : Nat} {i : Instruction} (found : (promote code)[index]? = some i)
    (named : i.targets[number]? = some target) :
    -256 ^ fieldWidth i ≤ 2 * displacement (promote code) index target ∧
      2 * displacement (promote code) index target < 256 ^ fieldWidth i := by
  obtain ⟨inside, -⟩ := List.getElem?_eq_some_iff.mp found
  have member := List.mem_of_getElem? found
  unfold fieldWidth
  by_cases short : i.isShort = true
  · obtain ⟨only, operand⟩ := target_of_short (valid.promote.wellFormed i member) short
    rw [InstructionAt.targets, operand] at named
    obtain rfl := List.mem_singleton.mp (List.mem_of_getElem? named)
    have fits := shortReach_promote valid index i target found short operand
    unfold fitsShort at fits
    simp only [Bool.and_eq_true, decide_eq_true_eq] at fits
    rw [if_pos short]
    omega
  · have target_lt := valid.promote.targets i member target (List.mem_of_getElem? named)
    have before := codeSize_take_le (promote code) (index + 1)
    have behind := codeSize_take_le (promote code) target
    rw [if_neg short, displacement_eq (promote code) inside (Nat.le_of_lt target_lt)]
    omega

theorem storedDistance_encoded {code : List Instruction} (valid : Valid code) (small : codeSize (promote code) < 2 ^ 31)
    (indices : List Nat) {index number target place : Nat} {i : Instruction} (found : (promote code)[index]? = some i)
    (named : i.targets[number]? = some target) (start : (offsets (promote code))[index]? = some place) :
    storedDistance (codeBytes (offsets (promote code)).toArray 0 (promote code) indices) (place + fieldPlace i number)
      (fieldWidth i) = displacement (promote code) index target := by
  obtain ⟨inside, -⟩ := List.getElem?_eq_some_iff.mp found
  have target_lt := valid.promote.targets i (List.mem_of_getElem? found) target (List.mem_of_getElem? named)
  have meant := distance_offsets (promote code) (codeSize ((promote code).take (index + 1))) (Nat.le_of_lt target_lt)
  rw [← displacement_eq (promote code) inside (Nat.le_of_lt target_lt)] at meant
  obtain ⟨low, high⟩ := displacement_bounds valid small found named
  rw [getElem?_offsets (promote code) (Nat.le_of_lt inside), Option.some.injEq] at start
  rw [← meant] at low high ⊢
  rw [← start]
  exact storedDistance_codeBytes valid.promote.wellFormed _ indices found named low high

/-- Promotion ends in a layout in which every short branch reaches its target, with as few long branches as
    possible; the code that is written has this layout, and the distances that it gives. -/
theorem promotion_is_least {code : List Instruction} (accepted : check code = .ok ()) :
    (∃ rounds ≤ code.length, promoteOnce^[rounds] code = promote code) ∧ promoteOnce (promote code) = promote code ∧
    ShortReach (promote code) ∧ promote code = lengthen (promotedPlaces code) code ∧
    (∀ places, ShortReach (lengthen places code) → promotedPlaces code ⊆ places) ∧
    (∀ index ∈ promotedPlaces code, ∃ i target, code[index]? = some i ∧ i.isShort = true ∧ i.operand = .target target ∧
      fitsShort (displacement (promote code) index target) = false ∧
      fitsShort (displacement (lengthen ((promotedPlaces code).erase index) code) index target) = false) ∧
    ∀ {σ : Type} (literal : String → EStateM Error σ Nat) (context : String) (s s' : σ) (encoded : EncodedBody),
      Code.encode literal context code s = .ok encoded s' →
        encoded.offsets = offsets (promote code) ∧ encoded.promoted = (promotedPlaces code).card ∧
        (encoded.bytes.length < 2 ^ 31 → ∀ index i number target place, (promote code)[index]? = some i →
          i.targets[number]? = some target → encoded.offsets[index]? = some place →
            storedDistance encoded.bytes (place + fieldPlace i number) (fieldWidth i) =
              displacement (promote code) index target) := by
  have valid := valid_of_check.mp accepted
  refine ⟨exists_rounds code.length code, promoteOnce_promote code, shortReach_promote valid, promote_eq_lengthen code,
    fun places => promotedPlaces_subset valid, fun index member => ?_, fun literal context s s' encoded run => ?_⟩
  · have inside : index < code.length := Finset.mem_range.mp (Finset.mem_filter.mp member).1
    have found : code[index]? = some code[index] := List.getElem?_eq_getElem inside
    rcases getElem?_promote code found with ⟨kept, -⟩ | ⟨-, short, -⟩
    · exact absurd member kept
    · obtain ⟨target, operand⟩ := target_of_short (valid.wellFormed _ (List.getElem_mem inside)) short
      exact ⟨code[index], target, found, short, operand, promoted_far_final valid member found operand,
        promoted_far valid member found operand⟩
  · obtain ⟨-, indices, -, -, rfl⟩ := encode_eq_ok.mp run
    refine ⟨rfl, countP_promoted code, fun small index i number target place found named start => ?_⟩
    rw [length_codeBytes valid.promote.wellFormed] at small
    exact storedDistance_encoded valid small indices found named start

/-- Two branches over the same instructions. The first one reaches its target, until the second one is widened. -/
def cascade : List Instruction :=
  [⟨⟨0x2B⟩, .target 23⟩, ⟨⟨0x2B⟩, .target 26⟩] ++ List.replicate 13 ⟨⟨0x21⟩, .int64 0⟩ ++
    List.replicate 11 nop ++ [ret]

theorem promotion_is_least_cascade :
    check cascade = .ok () ∧ promotedPlaces cascade = {0, 1} ∧ promoteOnce cascade = lengthen {1} cascade ∧
      (∀ places, ShortReach (lengthen places cascade) → {0, 1} ⊆ places) ∧
      ∃ encoded, Code.encode (fun _ => pure 0) "" cascade () = .ok encoded () ∧ encoded.promoted = 2 ∧
        storedDistance encoded.bytes 1 4 = displacement (promote cascade) 0 23 := by
  have accepted : check cascade = .ok () := by decide +kernel
  have places : promotedPlaces cascade = {0, 1} := by decide +kernel
  obtain ⟨-, -, -, -, least, -, written⟩ := promotion_is_least accepted
  refine ⟨accepted, places, by decide +kernel, places ▸ least, ?_⟩
  have ran : ∃ encoded, Code.encode (fun _ => pure 0) "" cascade () = .ok encoded () ∧
      decide (encoded.bytes.length < 2 ^ 31) = true := exists_of_any (by decide +kernel)
  obtain ⟨encoded, run, small⟩ := ran
  obtain ⟨layout, count, stored⟩ := written _ _ _ _ _ run
  have first : (promote cascade)[0]? = some ⟨⟨0x38⟩, .target 23⟩ := by decide +kernel
  have start : encoded.offsets[0]? = some 0 := by
    rw [layout]
    rfl
  have field := stored (of_decide_eq_true small) 0 _ 0 23 0 first rfl start
  have place : 0 + fieldPlace ⟨⟨0x38⟩, .target 23⟩ 0 = 1 := by decide +kernel
  have width : fieldWidth ⟨⟨0x38⟩, .target 23⟩ = 4 := by decide +kernel
  rw [place, width] at field
  exact ⟨encoded, run, by rw [count, places]; rfl, field⟩

end Code

end CilWeaver
