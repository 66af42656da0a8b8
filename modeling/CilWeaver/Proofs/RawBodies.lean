import CilWeaver.Method.RawBody
import CilWeaver.Proofs.Reads

/-!
Method bodies can be read back from their bytes: both headers, and both kinds of sections.
-/

namespace CilWeaver

open Reader Step

/-- The flags name one kind of clause. -/
def Clause.HasKind (c : Clause) : Prop := ClauseFlags.ofNumber? c.flags.number = some c.flags

instance (c : Clause) : Decidable c.HasKind := inferInstanceAs (Decidable (_ = _))

theorem toUInt32_ofNat16 {n : UInt32} (h : n ≤ 0xFFFF) : (UInt16.ofNat n.toNat).toUInt32 = n := by
  rw [UInt32.le_iff_toNat_le] at h
  apply UInt32.toNat.inj
  rw [UInt16.toNat_toUInt32, UInt16.toNat_ofNat', Nat.mod_eq_of_lt]
  exact Nat.lt_succ_of_le h

theorem toUInt32_ofNat8 {n : UInt32} (h : n ≤ 0xFF) : (UInt8.ofNat n.toNat).toUInt32 = n := by
  rw [UInt32.le_iff_toNat_le] at h
  apply UInt32.toNat.inj
  rw [UInt8.toNat_toUInt32, UInt8.toNat_ofNat', Nat.mod_eq_of_lt]
  exact Nat.lt_succ_of_le h

namespace StoredBody

open RawBody

theorem reads_clauseFlags {c : Clause} (kind : c.HasKind) {number : Nat}
    (h : number = c.flags.number) (position : Nat) :
    Reads (readClauseFlags number) position [] c.flags := by
  unfold readClauseFlags
  rw [h, kind]
  exact reads_pure position c.flags

theorem reads_smallClause {c : Clause} (kind : c.HasKind) (small : c.fitsSmall = true)
    (position : Nat) : Reads readSmallClause position (smallClause c) c := by
  simp only [Clause.fitsSmall, Bool.and_eq_true, decide_eq_true_eq] at small
  obtain ⟨⟨⟨tryOffset, tryLength⟩, handlerOffset⟩, handlerLength⟩ := small
  have flags := c.flags.number_lt
  unfold readSmallClause smallClause
  simp only [List.append_assoc]
  have number : (UInt16.ofNat c.flags.number).toNat = c.flags.number := by
    rw [UInt16.toNat_ofNat', Nat.mod_eq_of_lt (by omega)]
  refine (reads_u16_ofNat (by omega) position).bind ?_
  refine (reads_clauseFlags kind number _).bind_nil ?_
  refine (reads_u16_ofNat (Nat.lt_succ_of_le (UInt32.le_iff_toNat_le.mp tryOffset)) _).bind ?_
  refine (reads_byte_ofNat _ _).bind ?_
  refine (reads_u16_ofNat (Nat.lt_succ_of_le (UInt32.le_iff_toNat_le.mp handlerOffset)) _).bind ?_
  refine (reads_byte_ofNat _ _).bind ?_
  have last := (reads_u32 (position + (leBytes 2 c.flags.number).length
    + (leBytes 2 c.tryOffset.toNat).length + (leBytes 1 c.tryLength.toNat).length
    + (leBytes 2 c.handlerOffset.toNat).length + (leBytes 1 c.handlerLength.toNat).length)
    c.argument).map fun argument => (⟨c.flags, c.tryOffset, c.tryLength, c.handlerOffset,
      c.handlerLength, argument⟩ : Clause)
  rw [toUInt32_ofNat16 tryOffset, toUInt32_ofNat8 tryLength, toUInt32_ofNat16 handlerOffset,
    toUInt32_ofNat8 handlerLength]
  exact last

theorem reads_fatClause {c : Clause} (kind : c.HasKind) (position : Nat) :
    Reads readFatClause position (fatClause c) c := by
  have flags := c.flags.number_lt
  unfold readFatClause fatClause
  simp only [List.append_assoc]
  have number : (UInt32.ofNat c.flags.number).toNat % 2 ^ 16 = c.flags.number := by
    rw [UInt32.toNat_ofNat', Nat.mod_eq_of_lt (by omega), Nat.mod_eq_of_lt (by omega)]
  refine (reads_u32_ofNat (by omega) position).bind ?_
  refine (reads_clauseFlags kind number _).bind_nil ?_
  refine (reads_u32 _ c.tryOffset).bind ?_
  refine (reads_u32 _ c.tryLength).bind ?_
  refine (reads_u32 _ c.handlerOffset).bind ?_
  refine (reads_u32 _ c.handlerLength).bind ?_
  exact (reads_u32 _ c.argument).map fun argument => (⟨c.flags, c.tryOffset, c.tryLength,
    c.handlerOffset, c.handlerLength, argument⟩ : Clause)

/-- All clauses of a section, in order. -/
theorem reads_clauses {r : Reader Clause} {write : Clause → Bytes} {clauses : List Clause}
    (h : ∀ c ∈ clauses, ∀ position, Reads r position (write c) c) (position : Nat) :
    Reads (times clauses.length r) position (clauses.flatMap write) clauses := by
  have all := readsAll_flatMap h position
  rw [List.map_id'] at all
  exact all.times

theorem reads_smallSection {clauses : List Clause} (kinds : ∀ c ∈ clauses, c.HasKind)
    (size : 4 + 12 * clauses.length ≤ 0xFF) (small : clauses.all Clause.fitsSmall = true)
    (position : Nat) :
    Reads readSmallSection position
      (leBytes 1 (4 + 12 * clauses.length) ++ (leBytes 2 0 ++ clauses.flatMap smallClause)) clauses := by
  have number : (UInt8.ofNat (4 + 12 * clauses.length)).toNat = 4 + 12 * clauses.length := by
    rw [UInt8.toNat_ofNat', Nat.mod_eq_of_lt (by omega)]
  have whole : (decide (4 + 12 * clauses.length < 4) || (4 + 12 * clauses.length - 4) % 12 != 0) =
      false := by
    rw [Bool.or_eq_false_iff, decide_eq_false_iff_not, bne_eq_false_iff_eq]
    omega
  have count : (4 + 12 * clauses.length - 4) / 12 = clauses.length := by omega
  refine (reads_byte_ofNat _ position).bind ?_
  refine (reads_u16_ofNat (by decide) _).bind ?_
  simp only [number, whole, Bool.false_eq_true, ↓reduceIte, count]
  exact reads_clauses (fun c member => reads_smallClause (kinds c member)
    (List.all_eq_true.mp small c member)) _

theorem reads_fatSection {clauses : List Clause} (kinds : ∀ c ∈ clauses, c.HasKind)
    (size : 4 + 24 * clauses.length ≤ 0x00FFFFFF) (position : Nat) :
    Reads readFatSection position
      (leBytes 3 (4 + 24 * clauses.length) ++ clauses.flatMap fatClause) clauses := by
  have number : leNat (leBytes 3 (4 + 24 * clauses.length)) = 4 + 24 * clauses.length := by
    rw [leNat_leBytes, Nat.mod_eq_of_lt (by omega)]
  have whole : (decide (4 + 24 * clauses.length < 4) || (4 + 24 * clauses.length - 4) % 24 != 0) =
      false := by
    rw [Bool.or_eq_false_iff, decide_eq_false_iff_not, bne_eq_false_iff_eq]
    omega
  have count : (4 + 24 * clauses.length - 4) / 24 = clauses.length := by omega
  refine (reads_take_of_length position (length_leBytes 3 _)).bind ?_
  simp only [number, whole, Bool.false_eq_true, ↓reduceIte, count]
  exact reads_clauses (fun c member => reads_fatClause (kinds c member)) _

/-- The one section that is written, from the bytes in front of it that fill up to its start. -/
theorem reads_section {clauses : List Clause} {bytes : Bytes} (kinds : ∀ c ∈ clauses, c.HasKind)
    (h : clauseSection clauses = .ok bytes) (position : Nat) :
    Reads readSection position (zeros (padding 4 position) ++ bytes) (clauses, false) := by
  unfold readSection
  refine ((reads_align position (by simp [zeros])).orDefect _).bind ?_
  unfold clauseSection at h
  simp only at h
  split at h
  · rename_i fits
    cases h
    rw [List.cons_append, List.cons_append, List.append_assoc, ← List.singleton_append]
    refine ((reads_byte _ (UInt8.ofNat sectionClauses)).orDefect _).bind ?_
    exact (reads_smallSection kinds fits.1 fits.2 _).map fun clauses => (clauses, false)
  · split at h
    · cases h
    · rename_i large
      cases h
      rw [List.cons_append, ← List.singleton_append]
      refine ((reads_byte _ (UInt8.ofNat (sectionClauses + sectionFat))).orDefect _).bind ?_
      exact (reads_fatSection kinds (by omega) _).map fun clauses => (clauses, false)

theorem clauseSection_ne_nil {clauses : List Clause} {bytes : Bytes}
    (h : clauseSection clauses = .ok bytes) : bytes ≠ [] := by
  unfold clauseSection at h
  simp only at h
  split at h
  · cases h
    simp
  · split at h
    · cases h
    · cases h
      simp

theorem reads_sections {clauses : List Clause} {bytes : Bytes} (kinds : ∀ c ∈ clauses, c.HasKind)
    (h : clauseSection clauses = .ok bytes) (position fuel : Nat) :
    Reads (readSections [] (fuel + 1)) position (zeros (padding 4 position) ++ bytes) clauses := by
  have one := reads_section kinds h position
  intro rest
  rw [readSections, bind_of_ok (one rest)]
  rfl

/-- The body as it is stored: with the size of its header and of all of it. -/
def ofRaw (b : RawBody) (totalSize : Nat) : StoredBody :=
  { toRawBody := b, headerSize := if b.fitsTiny then 1 else fatHeaderSize, totalSize }

theorem reads_tiny {b : RawBody} (tiny : b.fitsTiny = true) :
    Reads read 0 (UInt8.ofNat (4 * b.code.length + tinyFormat) :: b.code)
      (ofRaw b (1 + b.code.length)) := by
  have fits := tiny
  simp only [fitsTiny, Bool.and_eq_true, decide_eq_true_eq, beq_iff_eq, Bool.not_eq_true',
    List.isEmpty_iff] at fits
  obtain ⟨⟨⟨⟨size, stack⟩, locals⟩, signature⟩, clauses⟩ := fits
  have sizeBound : b.code.length ≤ 63 := size
  have format : tinyFormat = 2 := rfl
  have first : (UInt8.ofNat (4 * b.code.length + tinyFormat)).toNat = 4 * b.code.length + 2 := by
    rw [UInt8.toNat_ofNat', format, Nat.mod_eq_of_lt (by omega)]
  have count : (4 * b.code.length + 2) / 4 = b.code.length := by omega
  have isTiny : ((4 * b.code.length + 2) % 4 == tinyFormat) = true := by
    rw [beq_iff_eq, format]
    omega
  have noSignature : b.localSignature = .null := congrArg Token.mk (beq_iff_eq.mp signature)
  have body : (⟨⟨b.code, tinyMaxStack, false, .null, []⟩, 1, 1 + b.code.length⟩ : StoredBody) =
      ofRaw b (1 + b.code.length) := by
    rw [ofRaw, if_pos tiny, ← stack, ← locals, ← noSignature, ← clauses]
  have whole : Reads (readTiny (4 * b.code.length + 2)) 0
      (UInt8.ofNat (4 * b.code.length + tinyFormat) :: b.code) (ofRaw b (1 + b.code.length)) := by
    unfold readTiny
    rw [count, ← List.singleton_append]
    refine (reads_skip 0 (List.length_singleton)).bind ?_
    dsimp only
    intro rest
    rw [bind_of_ok ((reads_take _ b.code).orDefect _ rest), ← body]
    rfl
  intro rest
  have peeked : (peek.orDefect .noBodyData) ⟨0, UInt8.ofNat (4 * b.code.length + tinyFormat) ::
      b.code ++ rest⟩ = .ok (UInt8.ofNat (4 * b.code.length + tinyFormat))
        ⟨0, UInt8.ofNat (4 * b.code.length + tinyFormat) :: b.code ++ rest⟩ := rfl
  rw [read, bind_of_ok peeked]
  simp only [first, isTiny, ↓reduceIte]
  exact whole rest

/-- The first two bytes of a large header. -/
def fatFlags (b : RawBody) : Nat :=
  fatFormat + (if b.initLocals then initLocalsFlag else 0)
    + (if b.clauses.isEmpty then 0 else moreSectionsFlag) + fatHeaderSize / 4 * 2 ^ 12

theorem fatFlags_cases (b : RawBody) :
    fatFlags b < 2 ^ 16 ∧ fatFlags b % 4 = fatFormat ∧ fatFlags b / 2 ^ 12 * 4 = fatHeaderSize ∧
      (fatFlags b &&& initLocalsFlag != 0) = b.initLocals ∧
      (fatFlags b &&& moreSectionsFlag != 0) = !b.clauses.isEmpty := by
  unfold fatFlags
  cases b.initLocals <;> cases b.clauses.isEmpty <;> decide

theorem length_fatHeader (b : RawBody) : b.fatHeader.length = fatHeaderSize := by
  simp [fatHeader, u16Bytes, u32Bytes, fatHeaderSize]

theorem reads_fat {b : RawBody} {sections : Bytes} (large : b.fitsTiny = false)
    (size : b.code.length < 2 ^ 32)
    (h : ∀ fuel, Reads (if !b.clauses.isEmpty then readSections [] (fuel + 1) else pure [])
      (fatHeaderSize + b.code.length) sections b.clauses)
    (nonempty : b.clauses.isEmpty = false → sections ≠ []) :
    Reads read 0 (b.fatHeader ++ b.code ++ sections)
      (ofRaw b (fatHeaderSize + b.code.length + sections.length)) := by
  obtain ⟨flagsBound, format, headerSize, init, more⟩ := fatFlags_cases b
  have flags : (UInt16.ofNat (fatFlags b)).toNat = fatFlags b := by
    rw [UInt16.toNat_ofNat', Nat.mod_eq_of_lt flagsBound]
  have codeSize : (UInt32.ofNat b.code.length).toNat = b.code.length := by
    rw [UInt32.toNat_ofNat', Nat.mod_eq_of_lt size]
  have body : ∀ total, (⟨⟨b.code, b.maxStack, b.initLocals, b.localSignature, b.clauses⟩,
      fatHeaderSize, total⟩ : StoredBody) = ofRaw b total := by
    intro total
    rw [ofRaw, large, if_neg Bool.false_ne_true]
  have header : b.fatHeader = leBytes 2 (fatFlags b) ++ (u16Bytes b.maxStack ++
      (leBytes 4 b.code.length ++ u32Bytes b.localSignature.value)) := by
    rw [← List.append_assoc, ← List.append_assoc]
    rfl
  have enough : ∀ rest : Bytes,
      ¬ (b.fatHeader ++ b.code ++ sections ++ rest).length < fatHeaderSize := by
    intro rest
    simp only [List.length_append, length_fatHeader]
    omega
  have notTruncated : ∀ rest : Bytes,
      remaining ⟨0, b.fatHeader ++ b.code ++ sections ++ rest⟩ =
        .ok (b.fatHeader ++ b.code ++ sections ++ rest).length
          ⟨0, b.fatHeader ++ b.code ++ sections ++ rest⟩ := fun _ => rfl
  have whole : Reads readFat 0 (b.fatHeader ++ b.code ++ sections)
      (ofRaw b (fatHeaderSize + b.code.length + sections.length)) := by
    intro rest
    unfold readFat
    rw [bind_of_ok (notTruncated rest)]
    simp only [enough rest, ↓reduceIte]
    revert rest
    change Reads _ 0 _ _
    rw [header]
    simp only [List.append_assoc]
    refine (reads_u16_ofNat flagsBound 0).bind ?_
    refine (reads_u16 _ b.maxStack).bind ?_
    refine (reads_u32_ofNat size _).bind ?_
    refine (reads_u32 _ b.localSignature.value).bind ?_
    simp only [flags, headerSize, codeSize, init, more, bne_self_eq_false, Bool.false_eq_true,
      ↓reduceIte]
    refine ((reads_take _ b.code).orDefect _).bind ?_
    have position : 0 + (leBytes 2 (fatFlags b)).length + (u16Bytes b.maxStack).length
        + (leBytes 4 b.code.length).length + (u32Bytes b.localSignature.value).length + b.code.length =
        fatHeaderSize + b.code.length := by
      simp [u16Bytes, u32Bytes, fatHeaderSize]
    rw [position]
    intro rest
    cases none : b.clauses.isEmpty with
    | true =>
      have read := h 0 rest
      simp only [none, Bool.not_true, Bool.false_eq_true, ↓reduceIte] at read ⊢
      rw [bind_of_ok read, ← body]
      rfl
    | false =>
      have left : 0 < (sections ++ rest).length := by
        have := List.length_pos_iff.mpr (nonempty none)
        rw [List.length_append]
        omega
      obtain ⟨fuel, hfuel⟩ := Nat.exists_eq_succ_of_ne_zero (Nat.pos_iff_ne_zero.mp left)
      have read := h fuel rest
      have remain : remaining ⟨fatHeaderSize + b.code.length, sections ++ rest⟩ =
          .ok (fuel + 1) ⟨fatHeaderSize + b.code.length, sections ++ rest⟩ := by
        rw [← Nat.succ_eq_add_one, ← hfuel]
        rfl
      simp only [none, Bool.not_false, ↓reduceIte] at read ⊢
      rw [bind_of_ok remain, bind_of_ok read, ← body]
      rfl
  have low : (UInt8.ofNat (fatFlags b)).toNat % 4 = fatFormat := by
    rw [UInt8.toNat_ofNat', ← format]
    omega
  intro rest
  obtain ⟨tail, shape⟩ : ∃ tail, b.fatHeader ++ b.code ++ sections ++ rest =
      UInt8.ofNat (fatFlags b) :: tail := by
    rw [header]
    exact ⟨_, rfl⟩
  have peeked : (peek.orDefect .noBodyData) ⟨0, b.fatHeader ++ b.code ++ sections ++ rest⟩ =
      .ok (UInt8.ofNat (fatFlags b)) ⟨0, b.fatHeader ++ b.code ++ sections ++ rest⟩ := by
    rw [shape]
    rfl
  rw [read, bind_of_ok peeked]
  simp only [low]
  exact whole rest

/-- A body that was written at an aligned place is read back, whatever follows it. -/
theorem parse_encode {start : Nat} {b : RawBody} {bytes : Bytes} (aligned : start % 4 = 0)
    (kinds : ∀ c ∈ b.clauses, c.HasKind) (h : b.encode start = .ok bytes) (rest : Bytes) :
    StoredBody.parse (bytes ++ rest) = .ok (ofRaw b bytes.length) := by
  unfold RawBody.encode at h
  by_cases tiny : b.fitsTiny = true
  · rw [if_pos tiny] at h
    cases h
    have length : (UInt8.ofNat (4 * b.code.length + tinyFormat) :: b.code).length =
        1 + b.code.length := Nat.add_comm _ _
    rw [length]
    exact (reads_tiny tiny).parse rest
  · rw [if_neg tiny] at h
    have large := Bool.eq_false_iff.mpr tiny
    by_cases size : 2 ^ 32 ≤ b.code.length
    · rw [if_pos size] at h
      cases h
    · rw [if_neg size] at h
      have length : (b.fatHeader ++ b.code).length = fatHeaderSize + b.code.length := by
        rw [List.length_append, length_fatHeader]
      cases none : b.clauses.isEmpty with
      | true =>
        simp only [none, ↓reduceIte] at h
        cases h
        have noClauses := List.isEmpty_iff.mp none
        have read : Reads read 0 (b.fatHeader ++ b.code ++ [])
            (ofRaw b (fatHeaderSize + b.code.length + 0)) := by
          refine reads_fat large (Nat.lt_of_not_le size) (fun fuel => ?_) (fun some => ?_)
          · simp only [none, Bool.not_true, Bool.false_eq_true, ↓reduceIte]
            rw [noClauses]
            exact reads_pure _ _
          · rw [none] at some
            cases some
        rw [List.append_nil, Nat.add_zero] at read
        rw [length]
        exact read.parse rest
      | false =>
        simp only [none, Bool.false_eq_true, ↓reduceIte] at h
        obtain ⟨sections, hsections, last⟩ := Outcome.bind_eq_ok.mp h
        rw [← Outcome.pure_eq_ok.mp last, length, padding_of_aligned aligned]
        have read : Reads read 0 (b.fatHeader ++ b.code ++
            (zeros (padding 4 (fatHeaderSize + b.code.length)) ++ sections))
            (ofRaw b (fatHeaderSize + b.code.length
              + (zeros (padding 4 (fatHeaderSize + b.code.length)) ++ sections).length)) := by
          refine reads_fat large (Nat.lt_of_not_le size) (fun fuel => ?_) (fun _ => ?_)
          · simp only [none, Bool.not_false, ↓reduceIte]
            exact reads_sections kinds hsections _ fuel
          · intro empty
            exact clauseSection_ne_nil hsections (List.append_eq_nil_iff.mp empty).2
        rw [← length, ← List.length_append, ← List.append_assoc, length] at read
        exact read.parse rest

/-- A header stands in front of the code. -/
theorem length_code_lt {start : Nat} {b : RawBody} {bytes : Bytes} (h : b.encode start = .ok bytes) :
    b.code.length < bytes.length := by
  have front : (b.fatHeader ++ b.code).length = fatHeaderSize + b.code.length := by
    rw [List.length_append, length_fatHeader]
  have size : 0 < fatHeaderSize := by decide
  unfold RawBody.encode at h
  split at h
  · cases h
    rw [List.length_cons]
    exact Nat.lt_succ_self _
  · split at h
    · cases h
    · simp only at h
      split at h
      · cases h
        omega
      · obtain ⟨sections, -, last⟩ := Outcome.bind_eq_ok.mp h
        rw [← Outcome.pure_eq_ok.mp last, List.length_append, List.length_append]
        omega

end StoredBody

namespace RawBody

theorem exists_clauseSection {clauses : List Clause} (few : 4 + 24 * clauses.length ≤ 0x00FFFFFF) :
    ∃ bytes, clauseSection clauses = .ok bytes ∧ bytes.length ≤ 4 + 24 * clauses.length := by
  have small : ∀ c, (smallClause c).length = 12 := fun c => by simp [smallClause, u32Bytes]
  have fat : ∀ c, (fatClause c).length = 24 := fun c => by simp [fatClause, u32Bytes]
  unfold clauseSection
  dsimp only
  split
  · refine ⟨_, rfl, ?_⟩
    simp only [List.length_append, List.length_cons, length_leBytes, length_flatMap_of_size small]
    omega
  · rw [if_neg (by omega)]
    refine ⟨_, rfl, ?_⟩
    simp only [List.length_append, List.length_cons, length_leBytes, length_flatMap_of_size fat]
    omega

theorem few_of_clauseSection {clauses : List Clause} {bytes : Bytes} (h : clauseSection clauses = .ok bytes) :
    4 + 24 * clauses.length ≤ 0x00FFFFFF := by
  unfold clauseSection at h
  dsimp only at h
  by_cases small : 4 + 12 * clauses.length ≤ 0xFF ∧ clauses.all Clause.fitsSmall = true
  · omega
  · rw [if_neg small] at h
    by_cases many : 0x00FFFFFF < 4 + 24 * clauses.length
    · rw [if_pos many] at h
      cases h
    · exact Nat.not_lt.mp many

/-- The clauses of a body that was encoded are in one section. -/
theorem few_of_encode {b : RawBody} {start : Nat} {bytes : Bytes} (h : b.encode start = .ok bytes) :
    4 + 24 * b.clauses.length ≤ 0x00FFFFFF := by
  by_cases none : b.clauses.isEmpty = true
  · rw [List.isEmpty_iff.mp none]
    decide
  · have large : ¬ b.fitsTiny = true := by
      unfold fitsTiny
      rw [Bool.and_eq_true]
      exact fun both => none both.2
    unfold encode at h
    rw [if_neg large] at h
    by_cases far : 2 ^ 32 ≤ b.code.length
    · rw [if_pos far] at h
      cases h
    · rw [if_neg far] at h
      dsimp only at h
      rw [if_neg none] at h
      obtain ⟨clauses, written, -⟩ := Outcome.bind_eq_ok.mp h
      exact few_of_clauseSection written

theorem size_of_encode {b : RawBody} {start : Nat} {bytes : Bytes} (h : b.encode start = .ok bytes) : b.code.length < 2 ^ 32 := by
  unfold encode at h
  by_cases tiny : b.fitsTiny = true
  · have small : b.code.length ≤ tinyCodeMax := by
      unfold fitsTiny at tiny
      simp only [Bool.and_eq_true, decide_eq_true_eq] at tiny
      exact tiny.1.1.1.1
    exact Nat.lt_of_le_of_lt small (by decide)
  · rw [if_neg tiny] at h
    by_cases far : 2 ^ 32 ≤ b.code.length
    · rw [if_pos far] at h
      cases h
    · exact Nat.not_le.mp far

/-- A body that does not take more than its header, its code and a section of large clauses. -/
theorem exists_encode {b : RawBody} (few : 4 + 24 * b.clauses.length ≤ 0x00FFFFFF) (size : b.code.length < 2 ^ 32)
    (start : Nat) : ∃ bytes, b.encode start = .ok bytes ∧
      bytes.length ≤ fatHeaderSize + b.code.length + (3 + (4 + 24 * b.clauses.length)) := by
  have front : (b.fatHeader ++ b.code).length = fatHeaderSize + b.code.length := by
    rw [List.length_append, StoredBody.length_fatHeader]
  have header : fatHeaderSize = 12 := rfl
  unfold encode
  by_cases tiny : b.fitsTiny = true
  · rw [if_pos tiny]
    refine ⟨_, rfl, ?_⟩
    rw [List.length_cons]
    omega
  · rw [if_neg tiny, if_neg (by omega)]
    by_cases none : b.clauses.isEmpty = true
    · rw [if_pos none]
      exact ⟨_, rfl, by omega⟩
    · obtain ⟨bytes, written, short⟩ := exists_clauseSection few
      have fill : padding 4 (start + (b.fatHeader ++ b.code).length) ≤ 3 := by
        unfold padding
        omega
      rw [if_neg none, written]
      refine ⟨_, rfl, ?_⟩
      rw [List.length_append, List.length_append, zeros, List.length_replicate]
      omega

end RawBody

end CilWeaver
