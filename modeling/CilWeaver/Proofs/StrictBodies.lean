import CilWeaver.Proofs.BodyRanges
import CilWeaver.Proofs.StrictParsers

/-!
Method bodies in data. Strict readers of bodies loop over the sections of a body with no bound but its data, and take
slices of it. A body is read as it was written, in whichever of the header and section formats fits it, and reading ends
on all data and answers nothing from outside of it.
-/

namespace CilWeaver

open Partly (Gives minus)
open StrictReader (Agrees AgreesAt Moves)

namespace StoredBody

open RawBody

def strictReadClauseFlags (number : Nat) : StrictReader ClauseFlags :=
  match ClauseFlags.ofNumber? number with
  | some flags => return flags
  | none => StrictReader.malformed (.clauseKind number)

def strictReadSmallClause : StrictReader Clause := do
  let flags ← strictReadClauseFlags (← StrictReader.u16).toNat
  let tryOffset ← StrictReader.u16
  let tryLength ← StrictReader.byte
  let handlerOffset ← StrictReader.u16
  let handlerLength ← StrictReader.byte
  let argument ← StrictReader.u32
  return ⟨flags, tryOffset.toUInt32, tryLength.toUInt32, handlerOffset.toUInt32, handlerLength.toUInt32, argument⟩

def strictReadFatClause : StrictReader Clause := do
  let flags ← strictReadClauseFlags ((← StrictReader.u32).toNat % 2 ^ 16)
  let tryOffset ← StrictReader.u32
  let tryLength ← StrictReader.u32
  let handlerOffset ← StrictReader.u32
  let handlerLength ← StrictReader.u32
  let argument ← StrictReader.u32
  return ⟨flags, tryOffset, tryLength, handlerOffset, handlerLength, argument⟩

/-- Reads the clauses of a section of the given size, each of which takes `each` bytes. -/
def strictReadClauses (size each : Nat) (invalid : Defect) (clause : StrictReader Clause) : StrictReader (List Clause) := do
  if size < 4 then StrictReader.malformed invalid
  let clauses ← StrictReader.need (minus size 4)
  if clauses % each != 0 then StrictReader.malformed invalid
  StrictReader.times (clauses / each) clause

def strictReadFatSection : StrictReader (List Clause) := do
  let size := leNat (← StrictReader.take 3)
  strictReadClauses size 24 (.fatSectionSize size) strictReadFatClause

def strictReadSmallSection : StrictReader (List Clause) := do
  let size := (← StrictReader.byte).toNat
  let _ ← StrictReader.u16
  strictReadClauses size 12 (.smallSectionSize size) strictReadSmallClause

def strictReadSection : StrictReader (List Clause × Bool) := do
  (StrictReader.align 4).orDefect .sectionMissing
  let kind := (← StrictReader.byte.orDefect .sectionMissing).toNat &&& sectionMask
  if kind &&& sectionClauses == 0 || kind &&& sectionOther != 0 then StrictReader.malformed (.sectionKind kind)
  let clauses ← if kind &&& sectionFat != 0 then strictReadFatSection else strictReadSmallSection
  return (clauses, kind &&& sectionMore != 0)

/-- Nothing but the data bounds the number of sections. -/
noncomputable def strictReadSections : (done : List Clause) → StrictReader (List Clause) :=
  StrictReader.loop fun done => do
    let (clauses, more) ← strictReadSection
    return if more then .inl (done ++ clauses) else .inr (done ++ clauses)

theorem strictReadSections_eq (done : List Clause) : strictReadSections done = (do
    let (clauses, more) ← strictReadSection
    if more then strictReadSections (done ++ clauses) else return done ++ clauses) := by
  unfold strictReadSections
  rw [StrictReader.loop_eq, bind_assoc]
  refine bind_congr fun found => ?_
  obtain ⟨clauses, more⟩ := found
  rw [pure_bind]
  cases more <;> rfl

def strictReadTiny (first : Nat) : StrictReader StoredBody := do
  StrictReader.skip 1
  let size := first / 4
  let code ← (StrictReader.take size).orDefect (.tinyBodySize size)
  return { code, maxStack := tinyMaxStack, initLocals := false, localSignature := .null, clauses := [], headerSize := 1,
           totalSize := ← StrictReader.position }

noncomputable def strictReadFat : StrictReader StoredBody := do
  if (← StrictReader.remaining) < fatHeaderSize then StrictReader.malformed .fatHeaderTruncated
  let first := (← StrictReader.u16).toNat
  let maxStack ← StrictReader.u16
  let size := (← StrictReader.u32).toNat
  let localSignature : Token := ⟨← StrictReader.u32⟩
  let headerSize := first / 2 ^ 12 * 4
  if headerSize != fatHeaderSize then StrictReader.malformed (.fatHeaderSize headerSize fatHeaderSize)
  let code ← (StrictReader.take size).orDefect (.bodySize size)
  let clauses ← if first &&& moreSectionsFlag != 0 then strictReadSections [] else pure []
  return { code, maxStack, initLocals := first &&& initLocalsFlag != 0, localSignature, clauses, headerSize,
           totalSize := ← StrictReader.position }

noncomputable def strictRead : StrictReader StoredBody := do
  let first := (← StrictReader.peek.orDefect .noBodyData).toNat
  if first % 4 == tinyFormat then strictReadTiny first
  else if first % 4 == fatFormat then strictReadFat
  else StrictReader.malformed (.bodyFormat (.ofNat first))

noncomputable def strictParse (data : Bytes) : Partly StoredBody := strictRead.parse data

theorem agrees_readClauseFlags (number : Nat) : Agrees (strictReadClauseFlags number) (readClauseFlags number) := by
  unfold strictReadClauseFlags readClauseFlags
  cases ClauseFlags.ofNumber? number with
  | some flags => exact .pure _
  | none => exact .malformed _

theorem agrees_readSmallClause : Agrees strictReadSmallClause readSmallClause :=
  Agrees.u16.bind fun _ => (agrees_readClauseFlags _).bind fun _ => Agrees.u16.bind fun _ => Agrees.byte.bind fun _ =>
    Agrees.u16.bind fun _ => Agrees.byte.bind fun _ => Agrees.u32.bind fun _ => .pure _

theorem agrees_readFatClause : Agrees strictReadFatClause readFatClause :=
  Agrees.u32.bind fun _ => (agrees_readClauseFlags _).bind fun _ => Agrees.u32.bind fun _ => Agrees.u32.bind fun _ =>
    Agrees.u32.bind fun _ => Agrees.u32.bind fun _ => Agrees.u32.bind fun _ => .pure _

/-- The difference is taken of a size that is large enough. -/
theorem agrees_readClauses (size each : Nat) (invalid : Defect) {x : StrictReader Clause} {r : Reader Clause} (agrees : Agrees x r) :
    Agrees (strictReadClauses size each invalid x) (do
      if size < 4 || (size - 4) % each != 0 then Reader.malformed invalid
      Reader.times ((size - 4) / each) r) := by
  unfold strictReadClauses
  by_cases small : size < 4
  · have either : (decide (size < 4) || (size - 4) % each != 0) = true := by rw [decide_eq_true small, Bool.true_or]
    rw [if_pos small, if_pos either]
    exact fun _ _ _ => .malformed_bind _ _ _
  · have only : (decide (size < 4) || (size - 4) % each != 0) = ((size - 4) % each != 0) := by
      rw [decide_eq_false small, Bool.false_or]
    rw [if_neg small, only]
    exact .need (Partly.minus_of_le (Nat.le_of_not_lt small)) (.check fun _ => agrees.times _)

theorem moves_readSection : Moves strictReadSection readSection := by
  have fat : Agrees strictReadFatSection readFatSection :=
    (Agrees.take 3).bind fun bytes => agrees_readClauses _ _ _ agrees_readFatClause
  have small : Agrees strictReadSmallSection readSmallSection :=
    Agrees.byte.bind fun size => Agrees.u16.bind fun _ => agrees_readClauses _ _ _ agrees_readSmallClause
  refine .bind_right ((Agrees.align (by decide)).orDefect _) fun _ => (Moves.byte.mapError _).bind_left fun kind => ?_
  exact .check fun _ => .ite (fun _ => fat.bind fun _ => .pure _) fun _ => small.bind fun _ => .pure _

/-- At the end of the data a section is missing. -/
theorem readSection_end (data : Bytes) :
    ∃ c, readSection ⟨data.length, data.drop data.length⟩ = .error (.malformed .sectionMissing) c := by
  unfold readSection
  rw [Step.bind_apply]
  cases aligned : (Reader.align 4).orDefect .sectionMissing ⟨data.length, data.drop data.length⟩ with
  | error e c =>
    unfold Reader.orDefect Reader.mapError at aligned
    split at aligned
    · cases aligned
    · injection aligned with fault place
      exact ⟨c, fault ▸ rfl⟩
  | ok a c =>
    have agrees : Agrees (StrictReader.align 4) (Reader.align 4) := .align (by decide)
    obtain ⟨stop, rfl, later, -, -⟩ := (agrees.orDefect _ data data.length (Nat.le_refl _)).answers aligned
    have none : data.drop stop = [] := List.drop_eq_nil_iff.mpr later
    rw [none]
    exact ⟨_, rfl⟩

theorem agreesAt_readSections {data : Bytes} {start fuel : Nat} (inside : start ≤ data.length)
    (enough : data.length - start ≤ fuel) (done : List Clause) :
    AgreesAt data start (strictReadSections done) (readSections done fuel) := by
  induction fuel generalizing start done with
  | zero =>
    have ended : start = data.length := by omega
    subst ended
    obtain ⟨c, missing⟩ := readSection_end data
    refine .failure (e := .malformed .sectionMissing) rfl ?_
    rw [strictReadSections_eq]
    change (strictReadSection ⟨data, data.length⟩ >>= _) = _
    rw [(moves_readSection.1 data data.length inside).fails missing]
    rfl
  | succ fuel ih =>
    rw [strictReadSections_eq]
    refine (moves_readSection.1 data start inside).bind fun found stop later within run => ?_
    refine .ite (fun _ => ih within ?_ _) fun _ => .pure _ within
    have advanced : start < stop := moves_readSection.2 inside run
    omega

/-- A section takes a byte at least, so that the bytes ahead are enough steps for all sections. -/
theorem agrees_sections :
    Agrees (strictReadSections []) (do readSections [] (← Reader.remaining)) := by
  intro data start inside
  have loop := agreesAt_readSections inside (Nat.le_refl _) []
  rw [← List.length_drop] at loop
  exact ⟨fun run => loop.fails run, fun run => loop.answers run⟩

theorem agrees_readFat : Agrees strictReadFat readFat := by
  refine Agrees.remaining.bind fun _ => .check fun _ => Agrees.u16.bind fun first => Agrees.u16.bind fun _ => ?_
  refine Agrees.u32.bind fun _ => Agrees.u32.bind fun _ => .check fun _ => ((Agrees.take _).orDefect _).bind fun _ => ?_
  refine .ite (fun _ => agrees_sections.bind fun _ => Agrees.position.bind fun _ => .pure _) fun _ =>
    Agrees.position.bind fun _ => .pure _

theorem agrees_read : Agrees strictRead StoredBody.read := by
  refine (Agrees.peek.orDefect _).bind fun first => .ite (fun _ => ?_) fun _ => .ite (fun _ => agrees_readFat) fun _ =>
    .malformed _
  exact (Agrees.skip 1).bind fun _ => ((Agrees.take _).orDefect _).bind fun _ => Agrees.position.bind fun _ => .pure _

theorem gives_parse (data : Bytes) : (strictParse data).Gives (StoredBody.parse data) := agrees_read.parse data

/-- The code lies behind the header. -/
def Located (data : Bytes) (b : StoredBody) : Prop := ∃ header rest : Bytes,
  data = header ++ (b.code ++ rest) ∧ header.length = b.headerSize ∧ b.code.length < 2 ^ 32

theorem Located.slice {data : Bytes} {b : StoredBody} (located : b.Located data) :
    Partly.slice data b.headerSize (b.headerSize + b.code.length) = some b.code := by
  obtain ⟨header, rest, rfl, length, -⟩ := located
  have inside : b.headerSize + b.code.length ≤ (header ++ (b.code ++ rest)).length := by
    rw [List.length_append, List.length_append]
    omega
  rw [Partly.slice_of_le (Nat.le_add_right _ _) inside, ← length, List.drop_left, Nat.add_sub_cancel_left, List.take_left]

theorem located_of_parse {data : Bytes} {b : StoredBody} (parsed : StoredBody.parse data = .ok b) : b.Located data := by
  obtain ⟨taken, rest, rfl, covers⟩ := covers_of_parse parsed
  obtain ⟨header, sections, rfl, length, -⟩ := covers.parts
  exact ⟨header, sections ++ rest, by rw [List.append_assoc, List.append_assoc], length, covers.size⟩

/-- The bodies that can be written are those whose code and clauses fit the widest formats. -/
theorem exists_encode_iff {b : RawBody} {start : Nat} :
    (∃ bytes, b.encode start = .ok bytes) ↔ b.code.length < 2 ^ 32 ∧ 4 + 24 * b.clauses.length ≤ 0x00FFFFFF := by
  constructor
  · rintro ⟨bytes, written⟩
    exact ⟨size_of_encode written, few_of_encode written⟩
  · rintro ⟨size, few⟩
    obtain ⟨bytes, written, -⟩ := exists_encode few size start
    exact ⟨bytes, written⟩

/-- The code that is found in the data behind the header. -/
def codeIn (data : Bytes) (b : StoredBody) : Option Bytes :=
  Partly.slice data b.headerSize (b.headerSize + b.code.length)

/-- A body can be written unless its code or its clauses outgrow the formats. Written behind bytes that end at a
    multiple of four, it is read back from there on, whatever follows: all that was given, with the number of bytes
    that were written as its size. -/
theorem parse_inverts_encode (front : Bytes) (aligned : front.length % 4 = 0) (b : RawBody)
    (kinds : ∀ c ∈ b.clauses, c.HasKind) :
    ((∃ bytes, b.encode front.length = .ok bytes) ↔
      b.code.length < 2 ^ 32 ∧ 4 + 24 * b.clauses.length ≤ 0x00FFFFFF) ∧
    ∀ bytes, b.encode front.length = .ok bytes → ∀ rest, ∃ stored,
      StoredBody.parse ((front ++ bytes ++ rest).drop front.length) = .ok stored ∧
        stored.toRawBody = b ∧ stored.totalSize = bytes.length ∧ stored.isFat = !b.fitsTiny ∧
        stored.codeIn ((front ++ bytes ++ rest).drop front.length) = some b.code := by
  refine ⟨exists_encode_iff, fun bytes written rest => ?_⟩
  have behind : (front ++ bytes ++ rest).drop front.length = bytes ++ rest := by
    rw [List.append_assoc, List.drop_left]
  have parsed := parse_encode aligned kinds written rest
  have fat : (ofRaw b bytes.length).isFat = !b.fitsTiny := by
    unfold ofRaw isFat
    cases b.fitsTiny <;> rfl
  rw [behind]
  exact ⟨_, parsed, rfl, rfl, fat, (located_of_parse parsed).slice⟩

/-- Two clauses over eleven bytes of code, the second of which is too long for small clauses. -/
def guarded : RawBody where
  code := zeros 11
  maxStack := 3
  initLocals := true
  localSignature := ⟨0x11000001⟩
  clauses := [⟨{ cleanup := true }, 0, 4, 4, 7, 0⟩, ⟨{ filter := true }, 0, 0x100, 4, 7, 2⟩]

theorem parse_inverts_encode_guarded : ∃ bytes stored, guarded.encode 4 = .ok bytes ∧ bytes.length = 76 ∧
    StoredBody.parse ((zeros 4 ++ bytes ++ [1, 2]).drop 4) = .ok stored ∧ stored.toRawBody = guarded ∧
    stored.totalSize = 76 := by
  have whole := parse_inverts_encode (zeros 4) rfl guarded (by decide)
  obtain ⟨bytes, written⟩ := whole.1.mpr (by decide)
  obtain ⟨stored, parsed, same, total, -⟩ := whole.2 bytes written [1, 2]
  have size : bytes.length = 76 := by
    cases written
    rfl
  exact ⟨bytes, stored, written, size, parsed, same, total.trans size⟩

/-- Reading a body ends on all data, however many sections announce another one: the loop over them, which nothing but
    the data bounds, has a result, and no slice, difference or conversion on the way is out of range. What is answered
    lies in the data, the code behind the header and the clauses behind the code, and each clause is of one kind. -/
theorem parse_stays_inside (data : Bytes) : (strictParse data).Gives (StoredBody.parse data) ∧
    ∀ b, StoredBody.parse data = .ok b →
      b.headerSize + b.code.length + 12 * b.clauses.length ≤ b.totalSize ∧ b.totalSize ≤ data.length ∧
      b.codeIn data = some b.code ∧ ∀ c ∈ b.clauses, c.HasKind := by
  refine ⟨gives_parse data, fun b parsed => ?_⟩
  have code := (located_of_parse parsed).slice
  obtain ⟨taken, rest, rfl, covers⟩ := covers_of_parse parsed
  obtain ⟨header, sections, rfl, length, room, kinds⟩ := covers.parts
  have total := covers.total
  simp only [List.length_append] at total ⊢
  exact ⟨by omega, by omega, code, kinds⟩

/-- A body without code, behind which one section announces another one, and that one a third one. -/
def chained : Bytes :=
  [0x0B, 0x30, 8, 0, 0, 0, 0, 0, 0, 0, 0, 0] ++ [0x81, 4, 0, 0] ++ [0xC1, 4, 0, 0] ++ [0x01, 4, 0, 0]

theorem parse_stays_inside_chained : ∃ b, StoredBody.parse chained = .ok b ∧ b.totalSize = 24 ∧
    12 + b.code.length ≤ b.totalSize ∧ b.codeIn chained = some [] := by
  have inside := (parse_stays_inside chained).2 _ rfl
  exact ⟨_, rfl, rfl, Nat.le_trans (Nat.le_add_right _ _) inside.1, inside.2.2.1⟩

end StoredBody

end CilWeaver
