import CilWeaver.Proofs.CodeBytes
import CilWeaver.Proofs.Writes

/-!
Decoding the bytes of valid code. The decoder answers the code itself and its layout, or fails, and
it fails iff some distance does not fit the field it is stored in.
-/

namespace CilWeaver

namespace Code

open Reader Instruction Step

/-- The look-up answers every literal that the draft has. -/
def Answers (lookup : Nat → Result String) (d : ModuleDraft) : Prop :=
  ∀ index text, d.HasLiteral index text → lookup index = .ok text

/-- What the bytes of code are in every later draft. -/
def StoresCode (offsets : Array Nat) (start : Nat) (code : List Instruction) (bytes : Bytes)
    (d : ModuleDraft) : Prop :=
  bytes.length = codeSize code ∧ (bytes.length < 2 ^ 32 → ∀ lookup, Answers lookup d →
    ReadsAll (scanStep lookup) start bytes (scannedFrom offsets start code))

/-- What encoding a body leaves in the draft. -/
theorem writes_encode (context : String) (code : List Instruction) :
    Writes (Code.encode ModuleWriter.addLiteral context code) fun encoded d =>
      Valid code ∧ encoded.offsets = offsets (promote code) ∧
        StoresCode (offsets (promote code)).toArray 0 (promote code) encoded.bytes d := by
  intro d encoded d' sound run
  obtain ⟨valid, indices, found, placed, rfl⟩ := encode_eq_ok.mp run
  obtain ⟨sound', grows, holds⟩ :=
    Writes.mapM (fun text _ => ModuleWriter.writes_addLiteral text) d indices d' sound found
  have wellFormed := valid.promote.wellFormed
  have size := length_codeBytes wellFormed (offsets (promote code)).toArray 0 indices
  refine ⟨sound', grows, fun final later => ⟨valid, rfl, size, fun small lookup answers => ?_⟩⟩
  have names : Names lookup indices (literals (promote code)) := by
    rw [literals_promote]
    exact (holds final later).flip.imp fun index text has => answers index text has
  exact readsAll_codeBytes wellFormed (size ▸ small) _ 0 names placed

theorem size_pos (i : Instruction) : 0 < i.size := by
  have opcode : 0 < i.opcode.size := by
    unfold OpCode.size
    split
    · exact Nat.succ_pos 1
    · exact Nat.succ_pos 0
  exact Nat.lt_of_lt_of_le opcode (Nat.le_add_right _ _)

theorem codeSize_append (front back : List Instruction) :
    codeSize (front ++ back) = codeSize front + codeSize back := by
  rw [codeSize, List.map_append, List.sum_append]
  rfl

theorem codeSize_cons (i : Instruction) (code : List Instruction) :
    codeSize (i :: code) = i.size + codeSize code := rfl

theorem codeSize_take_le (code : List Instruction) (count : Nat) :
    codeSize (code.take count) ≤ codeSize code := by
  have whole := codeSize_append (code.take count) (code.drop count)
  rw [List.take_append_drop] at whole
  omega

/-- The offset of a position is the size of the code in front of it. -/
theorem getElem?_offsetsFrom (start : Nat) (code : List Instruction) {index : Nat}
    (bound : index ≤ code.length) :
    (offsetsFrom start code)[index]? = some (start + codeSize (code.take index)) := by
  induction code generalizing start index with
  | nil =>
    obtain rfl : index = 0 := Nat.le_zero.mp bound
    rfl
  | cons i code ih =>
    cases index with
    | zero => rfl
    | succ index =>
      rw [offsetsFrom, List.getElem?_cons_succ, ih (start + i.size) (Nat.le_of_succ_le_succ bound),
        List.take_succ_cons, codeSize_cons, Nat.add_assoc]

theorem getElem?_offsets (code : List Instruction) {index : Nat} (bound : index ≤ code.length) :
    (offsets code)[index]? = some (codeSize (code.take index)) := by
  rw [offsets, getElem?_offsetsFrom 0 code bound, Nat.zero_add]

theorem le_of_mem_offsetsFrom {start offset : Nat} {code : List Instruction}
    (member : offset ∈ offsetsFrom start code) : start ≤ offset := by
  induction code generalizing start with
  | nil => exact Nat.le_of_eq (List.mem_singleton.mp member).symm
  | cons i code ih =>
    rcases List.mem_cons.mp member with rfl | member
    · exact Nat.le_refl _
    · exact Nat.le_trans (Nat.le_add_right _ _) (ih member)

/-- Offsets grow from one instruction to the next. -/
theorem pairwise_offsetsFrom (start : Nat) (code : List Instruction) :
    (offsetsFrom start code).Pairwise (· < ·) := by
  induction code generalizing start with
  | nil => exact List.pairwise_singleton _ _
  | cons i code ih =>
    refine List.pairwise_cons.mpr ⟨fun offset member => ?_, ih (start + i.size)⟩
    have := le_of_mem_offsetsFrom member
    have := size_pos i
    omega

theorem idxOf?_of_pairwise {numbers : List Nat} (ascending : numbers.Pairwise (· < ·)) {index n : Nat}
    (place : numbers[index]? = some n) : numbers.idxOf? n = some index := by
  obtain ⟨bound, same⟩ := List.getElem?_eq_some_iff.mp place
  refine List.idxOf?_eq_some_iff.mpr ⟨bound, same, fun other before equal => ?_⟩
  have less := List.pairwise_iff_getElem.mp ascending other index (Nat.lt_trans before bound) bound before
  omega

/-- The position of a boundary in the layout. -/
theorem boundaryOf?_offsets (code : List Instruction) {index : Nat} (bound : index ≤ code.length) :
    DecodedBody.boundaryOf? ⟨code, offsets code⟩ (codeSize (code.take index)) = some index :=
  idxOf?_of_pairwise (pairwise_offsetsFrom 0 code) (getElem?_offsets code bound)

theorem getElem?_starts (code : List Instruction) {index : Nat} (bound : index < code.length) :
    ((offsets code).take code.length)[index]? = some (codeSize (code.take index)) := by
  rw [List.getElem?_take_of_lt bound, getElem?_offsets code (Nat.le_of_lt bound)]

/-- The instruction that starts at an offset of the layout. -/
theorem indexOf?_offsets (code : List Instruction) {index : Nat} (bound : index < code.length) :
    DecodedBody.indexOf? ⟨code, offsets code⟩ (codeSize (code.take index)) = some index :=
  idxOf?_of_pairwise ((pairwise_offsetsFrom 0 code).sublist (List.take_sublist _ _))
    (getElem?_starts code bound)

theorem starts_scannedFrom (table : Array Nat) (start : Nat) (code : List Instruction) :
    (scannedFrom table start code).map (·.1) = (offsetsFrom start code).take code.length := by
  induction code generalizing start with
  | nil => rfl
  | cons i code ih => rw [scannedFrom, List.map_cons, ih, offsetsFrom, List.length_cons, List.take_succ_cons]

theorem take_append_codeSize (start : Nat) (code : List Instruction) :
    (offsetsFrom start code).take code.length ++ [start + codeSize code] = offsetsFrom start code := by
  induction code generalizing start with
  | nil => rfl
  | cons i code ih =>
    rw [offsetsFrom, List.length_cons, List.take_succ_cons, List.cons_append, codeSize_cons,
      ← Nat.add_assoc, ih]

/-- Whether a distance fits the field of four bytes that it is stored in. -/
def Fits (distance : Int) : Prop := -2 ^ 31 ≤ distance ∧ distance < 2 ^ 31

/-- Every distance fits. -/
def Reaches (code : List Instruction) : Prop :=
  ∀ front i back, code = front ++ i :: back → ∀ t ∈ i.targets,
    Fits (distance (offsets code).toArray (codeSize front + i.size) t)

theorem distance_offsets (code : List Instruction) (next : Nat) {t : Nat} (inside : t ≤ code.length) :
    distance (offsets code).toArray next t = (codeSize (code.take t) : Int) - next := by
  have place : (offsets code).toArray[t]? = some (codeSize (code.take t)) := by
    rw [List.getElem?_toArray]
    exact getElem?_offsets code inside
  rw [distance, place]
  rfl

/-- Where an instruction ends. -/
theorem end_of_mem {code front back : List Instruction} {i : Instruction} (shape : code = front ++ i :: back) :
    (offsets code).tail[front.length]? = some (codeSize front + i.size) := by
  have bound : front.length + 1 ≤ code.length := by
    rw [shape, List.length_append, List.length_cons]
    omega
  have front' : code.take (front.length + 1) = front ++ [i] := by
    rw [shape, List.take_append, List.take_of_length_le (Nat.le_succ _), Nat.add_sub_cancel_left]
    rfl
  rw [List.getElem?_tail, getElem?_offsets code bound, front', codeSize_append, codeSize_cons]
  rfl

/-- The stored distance of a short branch is the distance itself. -/
theorem fitsShort_of_mem {code front back : List Instruction} {i : Instruction} {t : Nat}
    (final : promoteOnce code = code) (shape : code = front ++ i :: back) (member : t ∈ i.targets)
    (valid : WellFormed i) (short : i.opcode.operandKind = .shortTarget) :
    fitsShort (distance (offsets code).toArray (codeSize front + i.size) t) = true := by
  have operand : i.operand = .target t := by
    have fits := valid.fits
    rw [InstructionAt.targets] at member
    rw [short] at fits
    cases same : i.operand with
    | target place =>
      rw [same] at member
      rw [List.mem_singleton.mp member]
    | _ =>
      rw [same] at fits
      cases fits
  have index : code[front.length]? = some i := by
    rw [shape, List.getElem?_append_right (Nat.le_refl _), Nat.sub_self, List.getElem?_cons_zero]
  exact fitsShort_of_final final index (end_of_mem shape) (beq_iff_eq.mpr short) operand

theorem resolve_of_start {starts : List Nat} {start index : Nat} {target : Int} (nonneg : 0 ≤ target)
    (place : starts.idxOf? target.toNat = some index) : resolve starts start target = .ok index := by
  have forward : ¬ target < 0 := by omega
  rw [resolve, if_neg forward, place]

theorem resolve_outside {starts : List Nat} {start index : Nat} {target : Int}
    (outside : 0 ≤ target → target.toNat ∉ starts) : resolve starts start target ≠ .ok index := by
  intro h
  unfold resolve at h
  split at h
  · rename_i found
    split at found
    · cases found
    · rename_i nonneg
      obtain ⟨bound, same, -⟩ := List.idxOf?_eq_some_iff.mp found
      exact outside (by omega) (same ▸ List.getElem_mem bound)
  · cases h

theorem le_codeSize_of_mem {code : List Instruction} {offset : Nat} (member : offset ∈ offsets code) :
    offset ≤ codeSize code := by
  obtain ⟨index, bound, rfl⟩ := List.getElem_of_mem member
  have inside := bound
  rw [length_offsets] at inside
  have place := getElem?_offsets code (Nat.le_of_lt_succ inside)
  rw [List.getElem?_eq_getElem bound] at place
  rw [Option.some.inj place]
  exact codeSize_take_le code index

/-- The decoder finds a target iff its distance fits. -/
theorem resolve_seen {code front back : List Instruction} {i : Instruction} {t u : Nat}
    (final : promoteOnce code = code) (small : codeSize code < 2 ^ 32) (shape : code = front ++ i :: back)
    (member : t ∈ i.targets) (inside : t < code.length) (valid : WellFormed i) (start : Nat) :
    resolve ((offsets code).take code.length) start
        (seen i.opcode.operandKind (offsets code).toArray (codeSize front + i.size) t) = .ok u ↔
      u = t ∧ Fits (distance (offsets code).toArray (codeSize front + i.size) t) := by
  have near : codeSize front + i.size ≤ codeSize code := by
    rw [shape, codeSize_append, codeSize_cons]
    omega
  have target := codeSize_take_le code t
  have d := distance_offsets code (codeSize front + i.size) (Nat.le_of_lt inside)
  have found : ∀ place : Int, place = codeSize (code.take t) →
      (resolve ((offsets code).take code.length) start place = .ok u ↔ u = t) := by
    rintro place rfl
    have resolved : resolve ((offsets code).take code.length) start (codeSize (code.take t)) = .ok t :=
      resolve_of_start (Int.natCast_nonneg _) (indexOf?_offsets code inside)
    rw [resolved]
    constructor
    · intro h
      cases h
      rfl
    · rintro rfl
      rfl
  unfold seen
  by_cases short : i.opcode.operandKind = .shortTarget
  · have fits := fitsShort_of_mem final shape member valid short
    unfold fitsShort at fits
    simp only [Bool.and_eq_true, decide_eq_true_eq] at fits
    have same := Int.bmod_eq_of_le (n := distance (offsets code).toArray (codeSize front + i.size) t)
      (m := 256) (by omega) (by omega)
    rw [if_pos short, same, found _ (by omega)]
    exact ⟨fun h => ⟨h, by unfold Fits; omega⟩, fun h => h.1⟩
  · rw [if_neg short]
    by_cases fits : Fits (distance (offsets code).toArray (codeSize front + i.size) t)
    · have same := Int.bmod_eq_of_le (n := distance (offsets code).toArray (codeSize front + i.size) t)
        (m := 2 ^ 32) (by unfold Fits at fits; omega) (by unfold Fits at fits; omega)
      rw [same, found _ (by omega)]
      exact ⟨fun h => ⟨h, fits⟩, fun h => h.1⟩
    · refine ⟨fun h => absurd h (resolve_outside fun nonneg member => ?_), fun h => absurd h.2 fits⟩
      have within := le_codeSize_of_mem (List.mem_of_mem_take member)
      unfold Fits at fits
      have wrapped := Int.bmod_emod (x := distance (offsets code).toArray (codeSize front + i.size) t)
        (m := 2 ^ 32)
      have low := Int.le_bmod (x := distance (offsets code).toArray (codeSize front + i.size) t)
        (m := 2 ^ 32) (by decide)
      have high := Int.bmod_lt (x := distance (offsets code).toArray (codeSize front + i.size) t)
        (m := 2 ^ 32) (by decide)
      omega

theorem mapM_map_eq_ok {τ σ ρ ε : Type} {f : σ → Except ε ρ} {g : τ → σ} {items : List τ} {results : List ρ} :
    (items.map g).mapM f = .ok results ↔ List.Forall₂ (fun t r => f (g t) = .ok r) items results := by
  rw [Outcome.mapM_eq_ok, List.forall₂_map_left_iff]

/-- If a step undoes `g` on the targets that satisfy `p`, it undoes it on operands whose targets do. -/
theorem operand_mapM {ε : Type} {f : Int → Except ε Nat} {g : Nat → Int} {p : Nat → Prop}
    {operand result : Operand} (undo : ∀ t ∈ operand.targets, ∀ u, f (g t) = .ok u ↔ u = t ∧ p t) :
    (operand.map g).mapM f = .ok result ↔ result = operand ∧ ∀ t ∈ operand.targets, p t := by
  cases operand with
  | target t =>
    have this := undo t (List.mem_singleton_self t)
    rw [OperandAt.map, OperandAt.mapM, Outcome.map_eq_ok]
    constructor
    · rintro ⟨u, found, rfl⟩
      obtain ⟨rfl, holds⟩ := (this u).mp found
      exact ⟨rfl, fun other member => List.mem_singleton.mp member ▸ holds⟩
    · rintro ⟨rfl, all⟩
      exact ⟨t, (this t).mpr ⟨rfl, all t (List.mem_singleton_self t)⟩, rfl⟩
  | switch ts =>
    have each : ∀ us, List.Forall₂ (fun t u => f (g t) = .ok u) ts us ↔ us = ts ∧ ∀ t ∈ ts, p t := by
      change ∀ t ∈ ts, _ at undo
      induction ts with
      | nil => simp
      | cons t ts ih =>
        intro us
        have others := ih fun other member => undo other (List.mem_cons_of_mem t member)
        rw [List.forall₂_cons_left_iff]
        constructor
        · rintro ⟨u, rest, first, all, rfl⟩
          obtain ⟨rfl, holds⟩ := (undo t List.mem_cons_self u).mp first
          obtain ⟨rfl, hold⟩ := (others rest).mp all
          exact ⟨rfl, List.forall_mem_cons.mpr ⟨holds, hold⟩⟩
        · rintro ⟨rfl, all⟩
          obtain ⟨holds, hold⟩ := List.forall_mem_cons.mp all
          exact ⟨t, ts, (undo t List.mem_cons_self t).mpr ⟨rfl, holds⟩, (others ts).mpr ⟨rfl, hold⟩, rfl⟩
    rw [OperandAt.map, OperandAt.mapM, Outcome.map_eq_ok]
    constructor
    · rintro ⟨us, found, rfl⟩
      obtain ⟨rfl, all⟩ := (each us).mp (mapM_map_eq_ok.mp found)
      exact ⟨rfl, all⟩
    · rintro ⟨rfl, all⟩
      exact ⟨ts, mapM_map_eq_ok.mpr ((each ts).mpr ⟨rfl, all⟩), rfl⟩
  | _ =>
    constructor
    · intro h
      cases h
      exact ⟨rfl, fun t member => absurd member List.not_mem_nil⟩
    · rintro ⟨rfl, -⟩
      rfl

/-- Resolving what the decoder sees of one instruction. -/
theorem mapM_seenAt {code front back : List Instruction} {i j : Instruction} (final : promoteOnce code = code)
    (valid : Valid code) (small : codeSize code < 2 ^ 32) (shape : code = front ++ i :: back) (start : Nat) :
    (seenAt (offsets code).toArray (codeSize front) i).mapM
        (resolve ((offsets code).take code.length) start) = .ok j ↔
      j = i ∧ ∀ t ∈ i.targets, Fits (distance (offsets code).toArray (codeSize front + i.size) t) := by
  have member : i ∈ code := by
    rw [shape]
    exact List.mem_append_right front List.mem_cons_self
  have undo := fun result => @operand_mapM _ (resolve ((offsets code).take code.length) start) _
    (fun t => Fits (distance (offsets code).toArray (codeSize front + i.size) t)) i.operand result
    fun t mem u => resolve_seen final small shape mem (valid.targets i member t mem)
      (valid.wellFormed i member) start
  rw [seenAt, InstructionAt.map, InstructionAt.mapM, Outcome.map_eq_ok]
  constructor
  · rintro ⟨operand, found, rfl⟩
    obtain ⟨rfl, all⟩ := (undo operand).mp found
    exact ⟨rfl, all⟩
  · rintro ⟨rfl, all⟩
    exact ⟨j.operand, (undo j.operand).mpr ⟨rfl, all⟩, rfl⟩

/-- Resolving what the decoder sees of the code behind `front`. -/
theorem mapM_scannedFrom {code : List Instruction} (front rest result : List Instruction) (final : promoteOnce code = code)
    (valid : Valid code) (small : codeSize code < 2 ^ 32) (shape : code = front ++ rest) :
    (scannedFrom (offsets code).toArray (codeSize front) rest).mapM
        (fun (start, raw) => raw.mapM (resolve ((offsets code).take code.length) start)) = .ok result ↔
      result = rest ∧ ∀ mid i back, rest = mid ++ i :: back → ∀ t ∈ i.targets,
        Fits (distance (offsets code).toArray (codeSize front + codeSize mid + i.size) t) := by
  induction rest generalizing front result with
  | nil =>
    rw [scannedFrom, List.mapM_nil, Outcome.pure_eq_ok]
    constructor
    · rintro rfl
      exact ⟨rfl, fun mid i back shape => by simp at shape⟩
    · rintro ⟨rfl, -⟩
      rfl
  | cons i rest ih =>
    have shape' : code = front ++ [i] ++ rest := by rw [shape, List.append_assoc]; rfl
    have size : codeSize (front ++ [i]) = codeSize front + i.size := by
      rw [codeSize_append]
      rfl
    have first := fun j => mapM_seenAt (j := j) final valid small shape (codeSize front)
    have others := fun result => ih (front ++ [i]) result shape'
    rw [size] at others
    rw [scannedFrom, List.mapM_cons, Outcome.bind_eq_ok]
    constructor
    · rintro ⟨j, one, more⟩
      obtain ⟨all, found, last⟩ := Outcome.bind_eq_ok.mp more
      obtain ⟨rfl, fits⟩ := (first j).mp one
      obtain ⟨rfl, allFit⟩ := (others all).mp found
      refine ⟨(Outcome.pure_eq_ok.mp last).symm, fun mid k back split t member => ?_⟩
      cases mid with
      | nil =>
        cases split
        exact fits t member
      | cons m mid =>
        obtain ⟨same, split'⟩ := List.cons.inj split
        subst same
        have fit := allFit mid k back split' t member
        rw [codeSize_cons, ← Nat.add_assoc]
        exact fit
    · rintro ⟨rfl, allFit⟩
      refine ⟨i, (first i).mpr ⟨rfl, fun t member => allFit [] i rest rfl t member⟩,
        Outcome.bind_eq_ok.mpr ⟨rest, (others rest).mpr ⟨rfl, fun mid k back split t member => ?_⟩, rfl⟩⟩
      have fit := allFit (i :: mid) k back (by rw [split]; rfl) t member
      rw [codeSize_cons, ← Nat.add_assoc] at fit
      exact fit

theorem scanStep_ne_nil (lookup : Nat → Result String) (position : Nat) (a : Nat × InstructionAt Int) :
    ¬ Reads (scanStep lookup) position [] a := by
  intro reads
  have none := reads []
  cases none

/-- The decoder answers valid code that it can read in its final layout, or fails. -/
theorem decode_eq_ok_of_reads {code : List Instruction} {bytes : Bytes} {lookup : Nat → Result String} {body : DecodedBody}
    (final : promoteOnce code = code) (valid : Valid code) (size : bytes.length = codeSize code)
    (reads : ReadsAll (scanStep lookup) 0 bytes (scannedFrom (offsets code).toArray 0 code)) (small : bytes.length < 2 ^ 32) :
    decode lookup bytes = .ok body ↔ body = ⟨code, offsets code⟩ ∧ Reaches code := by
  have scanned : (scan lookup).parse bytes = .ok (scannedFrom (offsets code).toArray 0 code) := by
    have run : scan lookup ⟨0, bytes⟩ = _ := reads.untilEnd (scanStep_ne_nil lookup)
    unfold Reader.parse EStateM.run Cursor.start
    rw [run]
  have starts := starts_scannedFrom (offsets code).toArray 0 code
  have layout := take_append_codeSize 0 code
  have results := fun result => mapM_scannedFrom [] code result final valid (size ▸ small) rfl
  have reaches : (∀ mid i back, code = mid ++ i :: back → ∀ t ∈ i.targets,
      Fits (distance (offsets code).toArray (codeSize [] + codeSize mid + i.size) t)) ↔ Reaches code := by
    have zero : codeSize [] = 0 := rfl
    simp only [zero, Nat.zero_add]
    rfl
  rw [Nat.zero_add, ← size] at layout
  unfold decode
  rw [scanned]
  change (do
    let instructions ← _
    pure _) = Except.ok body ↔ _
  rw [starts, Outcome.bind_eq_ok]
  constructor
  · rintro ⟨instructions, found, last⟩
    obtain ⟨rfl, fits⟩ := (results instructions).mp found
    have shape := Outcome.pure_eq_ok.mp last
    rw [layout] at shape
    exact ⟨shape.symm, reaches.mp fits⟩
  · rintro ⟨rfl, fits⟩
    refine ⟨code, (results code).mpr ⟨rfl, reaches.mpr fits⟩, ?_⟩
    rw [layout]
    rfl

/-- The decoder answers valid code that a draft stores, or fails. -/
theorem decode_eq_ok {code : List Instruction} {bytes : Bytes} {d : ModuleDraft} {lookup : Nat → Result String}
    {body : DecodedBody} (final : promoteOnce code = code) (valid : Valid code)
    (stored : StoresCode (offsets code).toArray 0 code bytes d) (small : bytes.length < 2 ^ 32)
    (answers : Answers lookup d) :
    decode lookup bytes = .ok body ↔ body = ⟨code, offsets code⟩ ∧ Reaches code :=
  decode_eq_ok_of_reads final valid stored.1 (stored.2 small lookup answers) small

/-- In code of less than two gigabytes every distance fits. -/
theorem reaches_of_small {code : List Instruction} (valid : Valid code) (small : codeSize code < 2 ^ 31) :
    Reaches code := by
  intro front i back shape t member
  have mem : i ∈ code := by
    rw [shape]
    exact List.mem_append_right front List.mem_cons_self
  have inside := valid.targets i mem t member
  have near : codeSize front + i.size ≤ codeSize code := by
    rw [shape, codeSize_append, codeSize_cons]
    omega
  have target := codeSize_take_le code t
  rw [distance_offsets code _ (Nat.le_of_lt inside), Fits]
  omega

end Code

end CilWeaver
