import CilWeaver.Proofs.RawBodies
import CilWeaver.Proofs.Spans

/-!
What reading a method body tells about the data: the header, the code and the sections stand one behind the other, every
clause is of a kind that there is, and the clauses do not take more room than the sections.
-/

namespace CilWeaver

open Reader Step

theorem ClauseFlags.ofNumber?_of_number {number : Nat} {flags : ClauseFlags} (h : ofNumber? number = some flags) :
    ofNumber? flags.number = some flags := by
  unfold ofNumber? at h
  split at h <;> cases h <;> rfl

/-- Parts of one size that share a property. -/
theorem Sequence.parts {α : Type} {size : Nat} {p : α → Prop} {bytes : Bytes} {as : List α}
    (h : Sequence (fun taken a => taken.length = size ∧ p a) bytes as) :
    bytes.length = size * as.length ∧ ∀ a ∈ as, p a := by
  induction h with
  | nil => exact ⟨rfl, fun _ member => absurd member List.not_mem_nil⟩
  | cons first others ih =>
    rw [List.length_append, List.length_cons, first.1, ih.1, Nat.mul_succ]
    exact ⟨Nat.add_comm _ _, List.forall_mem_cons.mpr ⟨first.2, ih.2⟩⟩

theorem Reader.consumes_align (alignment : Nat) : Consumes (align alignment) fun _ _ => True := by
  exact (Spans.position.bind fun start => Consumes.skip (padding alignment start)).mono fun _ _ _ _ => trivial

namespace StoredBody

open RawBody

theorem consumes_readClauseFlags (number : Nat) :
    Consumes (readClauseFlags number) fun taken flags => taken = [] ∧ ClauseFlags.ofNumber? flags.number = some flags := by
  unfold readClauseFlags
  cases known : ClauseFlags.ofNumber? number with
  | none => exact .malformed _
  | some flags => exact .pure ⟨rfl, ClauseFlags.ofNumber?_of_number known⟩

theorem consumes_readSmallClause : Consumes readSmallClause fun taken c => taken.length = 12 ∧ c.HasKind := by
  unfold readSmallClause
  refine Consumes.bind Spans.u16 fun _ number first => ?_
  refine Consumes.bind (consumes_readClauseFlags _) fun _ flags known => ?_
  refine Consumes.bind Spans.u16 fun _ tryOffset second => Consumes.bind .byte fun _ tryLength third => ?_
  refine Consumes.bind Spans.u16 fun _ handlerOffset fourth => Consumes.bind .byte fun _ handlerLength fifth => ?_
  refine Consumes.bind Spans.u32 fun _ argument sixth => .pure ⟨?_, known.2⟩
  rw [first, known.1, second, third, fourth, fifth, sixth]
  simp [u16Bytes, u32Bytes]

theorem consumes_readFatClause : Consumes readFatClause fun taken c => taken.length = 24 ∧ c.HasKind := by
  unfold readFatClause
  refine Consumes.bind Spans.u32 fun _ number first => ?_
  refine Consumes.bind (consumes_readClauseFlags _) fun _ flags known => ?_
  refine Consumes.bind Spans.u32 fun _ tryOffset second => Consumes.bind Spans.u32 fun _ tryLength third => ?_
  refine Consumes.bind Spans.u32 fun _ handlerOffset fourth => Consumes.bind Spans.u32 fun _ handlerLength fifth => ?_
  refine Consumes.bind Spans.u32 fun _ argument sixth => .pure ⟨?_, known.2⟩
  rw [first, known.1, second, third, fourth, fifth, sixth]
  simp [u32Bytes]

/-- The clauses are of kinds that there are, and even small ones would take no more than this room. -/
def Hold (room : Nat) (clauses : List Clause) : Prop :=
  12 * clauses.length ≤ room ∧ ∀ c ∈ clauses, c.HasKind

theorem consumes_readSmallSection : Consumes readSmallSection fun taken clauses => Hold taken.length clauses := by
  unfold readSmallSection
  refine Consumes.bind .byte fun _ size first => Consumes.bind Spans.u16 fun _ _ second => .check fun _ => ?_
  refine (Consumes.times consumes_readSmallClause _).mono fun taken clauses found => ?_
  obtain ⟨length, kinds⟩ := found.2.parts
  refine ⟨?_, kinds⟩
  rw [List.length_append, List.length_append]
  omega

theorem consumes_readFatSection : Consumes readFatSection fun taken clauses => Hold taken.length clauses := by
  unfold readFatSection
  refine Consumes.bind (Spans.take 3) fun _ size first => .check fun _ => ?_
  refine (Consumes.times consumes_readFatClause _).mono fun taken clauses found => ?_
  obtain ⟨length, kinds⟩ := found.2.parts
  refine ⟨?_, kinds⟩
  rw [List.length_append]
  omega

theorem consumes_readSection : Consumes readSection fun taken found => Hold taken.length found.1 := by
  have wider : ∀ {front back : Nat} {clauses : List Clause}, Hold back clauses → Hold (front + back) clauses :=
    fun held => ⟨Nat.le_trans held.1 (Nat.le_add_left _ _), held.2⟩
  unfold readSection
  refine Consumes.bind (Spans.mapError (consumes_align 4)) fun front _ _ => ?_
  refine Consumes.bind (Spans.mapError .byte) fun first kind _ => .check fun _ => .ite (fun _ => ?_) fun _ => ?_
  · refine Consumes.map (consumes_readFatSection.mono fun taken clauses held => ?_)
    rw [List.length_append, List.length_append]
    exact wider (wider held)
  · refine Consumes.map (consumes_readSmallSection.mono fun taken clauses held => ?_)
    rw [List.length_append, List.length_append]
    exact wider (wider held)

/-- One section behind the other, as long as each of them announces another one. -/
theorem consumes_readSections (done : List Clause) (fuel : Nat) : Consumes (readSections done fuel) fun taken found =>
    ∃ own, found = done ++ own ∧ Hold taken.length own := by
  induction fuel generalizing done with
  | zero => exact .malformed _
  | succ fuel ih =>
    unfold readSections
    refine Consumes.bind consumes_readSection fun front found held => ?_
    obtain ⟨clauses, more⟩ := found
    refine .ite (fun _ => (ih (done ++ clauses)).mono ?_) fun _ => .pure ?_
    · rintro back _ ⟨own, rfl, others⟩
      refine ⟨clauses ++ own, List.append_assoc _ _ _, ?_, fun c member => ?_⟩
      · have first := held.1
        have rest := others.1
        rw [List.length_append, List.length_append]
        dsimp only at first
        omega
      · exact (List.mem_append.mp member).elim (held.2 c) (others.2 c)
    · rw [List.append_nil]
      exact ⟨clauses, rfl, held⟩

/-- The bytes of a body at the start of the data: its header, its code, and the sections of its clauses. -/
structure Covers (taken : Bytes) (b : StoredBody) : Prop where
  parts : ∃ header sections : Bytes, taken = header ++ (b.code ++ sections) ∧ header.length = b.headerSize ∧
    Hold sections.length b.clauses
  total : b.totalSize = taken.length
  size : b.code.length < 2 ^ 32

theorem covers_of_readTiny {first : Nat} {data : Bytes} {b : StoredBody} {c : Cursor} (small : first < 256)
    (run : readTiny first ⟨0, data⟩ = .ok b c) : ∃ taken, data = taken ++ c.rest ∧ b.Covers taken := by
  unfold readTiny at run
  obtain ⟨_, c₁, skipped, run⟩ := bind_eq_ok.mp run
  obtain ⟨_, c₂, coded, run⟩ := bind_eq_ok.mp run
  obtain ⟨stop, c₃, asked, run⟩ := bind_eq_ok.mp run
  obtain ⟨header, front, start, one⟩ := Consumes.skip 1 _ _ _ skipped
  obtain ⟨code, back, place, rfl, length⟩ := (Spans.take (first / 4)).mapError _ _ _ coded
  cases asked
  cases run
  dsimp only at front start place
  refine ⟨header ++ code, ?_, ⟨header, [], by rw [List.append_nil], one, by simp [Hold]⟩, ?_, ?_⟩
  · rw [front, back, List.append_assoc]
  · dsimp only
    rw [List.length_append]
    omega
  · dsimp only
    omega

theorem covers_of_readFat {data : Bytes} {b : StoredBody} {c : Cursor} (run : readFat ⟨0, data⟩ = .ok b c) :
    ∃ taken, data = taken ++ c.rest ∧ b.Covers taken := by
  unfold readFat at run
  obtain ⟨ahead, c₀, asked, run⟩ := bind_eq_ok.mp run
  cases asked
  split at run
  · exact absurd run throw_ne_ok
  obtain ⟨first, c₁, one, run⟩ := bind_eq_ok.mp run
  obtain ⟨stack, c₂, two, run⟩ := bind_eq_ok.mp run
  obtain ⟨size, c₃, three, run⟩ := bind_eq_ok.mp run
  obtain ⟨signature, c₄, four, run⟩ := bind_eq_ok.mp run
  split at run
  · exact absurd run throw_ne_ok
  rename_i header
  obtain ⟨_, c₅, coded, run⟩ := bind_eq_ok.mp run
  obtain ⟨_, front₁, place₁, rfl⟩ := Spans.u16 _ _ _ one
  obtain ⟨_, front₂, place₂, rfl⟩ := Spans.u16 _ _ _ two
  obtain ⟨_, front₃, place₃, rfl⟩ := Spans.u32 _ _ _ three
  obtain ⟨_, front₄, place₄, rfl⟩ := Spans.u32 _ _ _ four
  obtain ⟨code, front₅, place₅, rfl, length⟩ := (Spans.take size.toNat).mapError _ _ _ coded
  have last : ∃ back, c₅.rest = back ++ c.rest ∧ c.position = c₅.position + back.length ∧ b.totalSize = c.position ∧
      b.code = code ∧ b.headerSize = first.toNat / 2 ^ 12 * 4 ∧ Hold back.length b.clauses := by
    split at run
    · obtain ⟨ahead, c₆, asked, run⟩ := bind_eq_ok.mp run
      cases asked
      obtain ⟨clauses, c₇, sections, run⟩ := bind_eq_ok.mp run
      obtain ⟨back, rest, place, own, rfl, held⟩ := consumes_readSections [] _ _ _ _ sections
      obtain ⟨stop, c₈, asked, run⟩ := bind_eq_ok.mp run
      cases asked
      cases run
      exact ⟨back, rest, place, rfl, rfl, rfl, held⟩
    · obtain ⟨stop, c₈, asked, run⟩ := bind_eq_ok.mp run
      cases asked
      cases run
      exact ⟨[], rfl, rfl, rfl, rfl, rfl, Nat.le_refl 0, fun _ member => absurd member List.not_mem_nil⟩
  obtain ⟨back, rest, place, total, rfl, headerSize, held⟩ := last
  rw [bne_iff_ne, ne_eq, not_not] at header
  dsimp only at front₁ place₁
  refine ⟨u16Bytes first ++ u16Bytes stack ++ u32Bytes size ++ u32Bytes signature ++ (b.code ++ back), ?_,
    ⟨_, back, rfl, ?_, held⟩, ?_, ?_⟩
  · rw [front₁, front₂, front₃, front₄, front₅, rest]
    simp only [List.append_assoc]
  · rw [headerSize, header]
    rfl
  · simp only [List.length_append]
    omega
  · rw [length]
    exact size.toNat_lt

theorem covers_of_parse {data : Bytes} {b : StoredBody} (parsed : StoredBody.parse data = .ok b) :
    ∃ taken rest, data = taken ++ rest ∧ b.Covers taken := by
  obtain ⟨c, run⟩ := parse_eq_ok.mp parsed
  unfold StoredBody.read at run
  obtain ⟨first, c₁, peeked, run⟩ := bind_eq_ok.mp run
  have here : c₁ = ⟨0, data⟩ := by
    cases data with
    | nil => cases peeked
    | cons byte data =>
      cases peeked
      rfl
  subst here
  have found : ∃ taken, data = taken ++ c.rest ∧ b.Covers taken := by
    split at run
    · exact covers_of_readTiny first.toNat_lt run
    · split at run
      · exact covers_of_readFat run
      · exact absurd run throw_ne_ok
  obtain ⟨taken, whole, covers⟩ := found
  exact ⟨taken, c.rest, whole, covers⟩

end StoredBody

end CilWeaver
