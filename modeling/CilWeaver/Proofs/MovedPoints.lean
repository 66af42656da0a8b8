import CilWeaver.Proofs.Editing
import CilWeaver.Proofs.WovenBodies
import CilWeaver.Proofs.OtherSymbols

/-!
Source points that are moved behind a hidden one. Their offsets differ as they did, and so they are stored with the same
differences.
-/

namespace CilWeaver

open Code Step

namespace SequencePoints

/-! The room that points take -/

variable {c next : Context} {p : SequencePoint} {bytes : Bytes}

theorem length_encodeDocument_le (h : encodeDocument c p = .ok bytes) : bytes.length ≤ 8 := by
  unfold encodeDocument fault at h
  split at h
  · cases h
  · split at h
    · cases h
      exact Nat.zero_le 8
    · split at h
      · cases h
      · obtain ⟨zero, hzero, h⟩ := Outcome.bind_eq_ok.mp h
        obtain ⟨number, hnumber, h⟩ := Outcome.bind_eq_ok.mp h
        rw [← Outcome.pure_eq_ok.mp h, List.length_append]
        exact Nat.add_le_add (length_compressed_le hzero) (length_compressed_le hnumber)

theorem length_encodeOffset_le (h : encodeOffset c p = .ok bytes) : bytes.length ≤ 4 := by
  unfold encodeOffset fault at h
  split at h
  · exact length_compressed_le h
  · split at h
    · exact length_compressed_le h
    · cases h

theorem length_encodeExtent_le (h : encodeExtent p = .ok bytes) : bytes.length ≤ 8 := by
  obtain ⟨-, first, second, rfl, hfirst, hsecond⟩ := encodeExtent_eq_ok h
  have last : second.length ≤ 4 := by
    split at hsecond
    · exact length_compressed_le hsecond
    · exact length_compressedInt_le hsecond
  rw [List.length_append]
  exact Nat.add_le_add (length_compressed_le hfirst) last

theorem length_encodeStart_le (h : encodeStart c p = .ok bytes) : bytes.length ≤ 8 := by
  unfold encodeStart at h
  split at h
  · obtain ⟨line, hline, h⟩ := Outcome.bind_eq_ok.mp h
    obtain ⟨column, hcolumn, h⟩ := Outcome.bind_eq_ok.mp h
    rw [← Outcome.pure_eq_ok.mp h, List.length_append]
    exact Nat.add_le_add (length_compressed_le hline) (length_compressed_le hcolumn)
  · obtain ⟨line, hline, h⟩ := Outcome.bind_eq_ok.mp h
    obtain ⟨column, hcolumn, h⟩ := Outcome.bind_eq_ok.mp h
    rw [← Outcome.pure_eq_ok.mp h, List.length_append]
    exact Nat.add_le_add (length_compressedInt_le hline) (length_compressedInt_le hcolumn)

theorem length_encodePoint_le (h : encodePoint c p = .ok (bytes, next)) : bytes.length ≤ 28 := by
  rw [encodePoint_eq] at h
  obtain ⟨document, hdocument, h⟩ := Outcome.bind_eq_ok.mp h
  obtain ⟨offset, hoffset, h⟩ := Outcome.bind_eq_ok.mp h
  obtain ⟨rest, hrest, h⟩ := Outcome.bind_eq_ok.mp h
  have front : document.length + offset.length ≤ 12 :=
    Nat.add_le_add (length_encodeDocument_le hdocument) (length_encodeOffset_le hoffset)
  have back : rest.length ≤ 16 := by
    unfold encodeRest at hrest
    by_cases hidden : p.isHidden = true
    · rw [if_pos hidden] at hrest
      cases hrest
      decide
    · rw [if_neg hidden] at hrest
      obtain ⟨extent, hextent, hrest⟩ := Outcome.bind_eq_ok.mp hrest
      obtain ⟨start, hstart, hrest⟩ := Outcome.bind_eq_ok.mp hrest
      have first := length_encodeExtent_le hextent
      have second := length_encodeStart_le hstart
      rw [← Outcome.pure_eq_ok.mp hrest, List.length_append]
      omega
  rw [← (Prod.mk.inj (Outcome.pure_eq_ok.mp h)).1, List.length_append, List.length_append]
  omega

theorem length_encodePoints_le {points : List SequencePoint} (h : encodePoints c points = .ok bytes) :
    bytes.length ≤ 28 * points.length := by
  induction points generalizing c bytes with
  | nil =>
    cases h
    exact Nat.zero_le _
  | cons p points ih =>
    obtain ⟨⟨record, next⟩, hrecord, h⟩ := Outcome.bind_eq_ok.mp h
    obtain ⟨rest, hrest, h⟩ := Outcome.bind_eq_ok.mp h
    have first := length_encodePoint_le hrecord
    have others := ih hrest
    rw [← Outcome.pure_eq_ok.mp h, List.length_append, List.length_cons]
    omega

theorem length_encode_le {s : SequencePoints} {document : UInt32} (h : s.encode document = .ok bytes) :
    bytes.length ≤ 8 + 28 * s.points.length := by
  unfold encode fault at h
  obtain ⟨signature, hsignature, h⟩ := Outcome.bind_eq_ok.mp h
  have front := length_compressed_le hsignature
  split at h
  · split at h
    · cases h
    · rename_i p points shape
      obtain ⟨first, hfirst, h⟩ := Outcome.bind_eq_ok.mp h
      obtain ⟨records, hrecords, h⟩ := Outcome.bind_eq_ok.mp h
      have second := length_compressed_le hfirst
      have others := length_encodePoints_le hrecords
      rw [← Outcome.pure_eq_ok.mp h, List.length_append, List.length_append]
      omega
  · obtain ⟨records, hrecords, h⟩ := Outcome.bind_eq_ok.mp h
    have others := length_encodePoints_le hrecords
    rw [← Outcome.pure_eq_ok.mp h, List.length_append]
    omega

/-! Points that follow each other further on -/

/-- A context some bytes further on. What is first there stands behind a point at the start. -/
structure Context.Ahead (n : Nat) (c c' : Context) : Prop where
  document : c'.document = c.document
  start : c'.start? = c.start?
  first : c.offset? = none → c'.offset? = some 0
  later : ∀ last, c.offset? = some last → ∃ last', c'.offset? = some last' ∧ last'.toNat = n + last.toNat

/-- The same point some bytes further on, where its offset can still be stored. -/
structure Further (n : Nat) (p p' : SequencePoint) : Prop where
  same : p' = { p with place := p'.place }
  place : p'.place.toNat = n + p.place.toNat
  reach : p'.place.toNat < 2 ^ 29

variable {n : Nat} {c' : Context} {p' : SequencePoint}

theorem encodeDocument_further (ahead : c.Ahead n c') (further : Further n p p') (h : encodeDocument c p = .ok bytes) :
    encodeDocument c' p' = .ok bytes := by
  obtain ⟨same, -, -⟩ := further
  rw [same]
  unfold encodeDocument fault at h ⊢
  rw [ahead.document]
  dsimp only
  by_cases zero : (p.document == 0) = true
  · rw [if_pos zero] at h
    cases h
  · rw [if_neg zero] at h ⊢
    by_cases current : (p.document == c.document) = true
    · rw [if_pos current] at h ⊢
      exact h
    · rw [if_neg current] at h ⊢
      cases shape : c.offset? with
      | none =>
        simp only [shape, Option.isNone_none, ↓reduceIte] at h
        cases h
      | some last =>
        obtain ⟨last', shape', -⟩ := ahead.later last shape
        simp only [shape, Option.isNone_some, Bool.false_eq_true, ↓reduceIte] at h
        simp only [shape', Option.isNone_some, Bool.false_eq_true, ↓reduceIte]
        exact h

theorem exists_encodeOffset (positive : 0 < n) (ahead : c.Ahead n c') (further : Further n p p')
    (h : encodeOffset c p = .ok bytes) : ∃ bytes', encodeOffset c' p' = .ok bytes' := by
  obtain ⟨-, place, reach⟩ := further
  unfold encodeOffset fault at h ⊢
  cases shape : c.offset? with
  | none =>
    have behind : (0 : UInt32) < p'.place := by
      rw [UInt32.lt_iff_toNat_lt, place]
      exact Nat.lt_of_lt_of_le positive (Nat.le_add_right n _)
    rw [ahead.first shape]
    dsimp only
    rw [if_pos behind]
    exact exists_compressed (Nat.lt_of_le_of_lt (Nat.sub_le _ _) reach)
  | some last =>
    obtain ⟨last', shape', number⟩ := ahead.later last shape
    simp only [shape] at h
    rw [shape']
    dsimp only
    by_cases ordered : last < p.place
    · have behind : last' < p'.place := by
        rw [UInt32.lt_iff_toNat_lt] at ordered ⊢
        omega
      rw [if_pos behind]
      exact exists_compressed (Nat.lt_of_le_of_lt (Nat.sub_le _ _) reach)
    · rw [if_neg ordered] at h
      cases h

theorem encodeExtent_further (further : Further n p p') (h : encodeExtent p = .ok bytes) : encodeExtent p' = .ok bytes := by
  obtain ⟨same, -, -⟩ := further
  rw [same]
  unfold encodeExtent fault at h ⊢
  dsimp only at h ⊢
  split at h
  · cases h
  · rename_i lines
    rw [if_neg lines]
    split at h
    · cases h
    · rename_i columns
      rw [if_neg columns]
      exact h

theorem encodeStart_further (ahead : c.Ahead n c') (further : Further n p p') : encodeStart c' p' = encodeStart c p := by
  obtain ⟨same, -, -⟩ := further
  rw [same]
  unfold encodeStart
  rw [ahead.start]

theorem Context.Ahead.after (ahead : c.Ahead n c') (further : Further n p p') : (c.after p).Ahead n (c'.after p') := by
  obtain ⟨same, place, -⟩ := further
  constructor
  case document =>
    rw [same]
    rfl
  case start =>
    rw [same]
    unfold Context.after
    rw [ahead.start]
    rfl
  case first =>
    intro none
    cases none
  case later =>
    intro last shape
    cases shape
    exact ⟨p'.place, rfl, place⟩

theorem exists_encodePoint_further (positive : 0 < n) (ahead : c.Ahead n c') (further : Further n p p')
    (h : encodePoint c p = .ok (bytes, next)) : next = c.after p ∧ ∃ bytes', encodePoint c' p' = .ok (bytes', c'.after p') := by
  refine ⟨(encodePoint_eq_ok h).1, ?_⟩
  unfold encodePoint at h ⊢
  obtain ⟨document, hdocument, h⟩ := Outcome.bind_eq_ok.mp h
  obtain ⟨offset, hoffset, h⟩ := Outcome.bind_eq_ok.mp h
  obtain ⟨offset', hoffset'⟩ := exists_encodeOffset positive ahead further hoffset
  rw [encodeDocument_further ahead further hdocument, Outcome.ok_bind, hoffset', Outcome.ok_bind]
  have kind : p'.isHidden = p.isHidden := by
    rw [further.same]
    rfl
  unfold Context.after
  rw [kind]
  cases hidden : p.isHidden with
  | true => exact ⟨_, rfl⟩
  | false =>
    simp only [hidden, Bool.false_eq_true, ↓reduceIte] at h ⊢
    obtain ⟨extent, hextent, h⟩ := Outcome.bind_eq_ok.mp h
    obtain ⟨start, hstart, h⟩ := Outcome.bind_eq_ok.mp h
    have same : encodeStart { c' with document := p'.document, offset? := some p'.place } p' = .ok start :=
      (encodeStart_further ahead further).trans hstart
    rw [encodeExtent_further further hextent, Outcome.ok_bind, same, Outcome.ok_bind]
    exact ⟨_, rfl⟩

/-- Points are encoded further on if they are encoded where they are. -/
theorem exists_encodePoints_further {points points' : List SequencePoint} (positive : 0 < n) (ahead : c.Ahead n c')
    (further : List.Forall₂ (Further n) points points') (h : encodePoints c points = .ok bytes) :
    ∃ bytes', encodePoints c' points' = .ok bytes' := by
  induction further generalizing c c' bytes with
  | nil => exact ⟨[], rfl⟩
  | cons first others ih =>
    obtain ⟨⟨record, next⟩, hrecord, h⟩ := Outcome.bind_eq_ok.mp h
    obtain ⟨rest, hrest, -⟩ := Outcome.bind_eq_ok.mp h
    obtain ⟨rfl, record', hrecord'⟩ := exists_encodePoint_further positive ahead first hrecord
    obtain ⟨rest', hrest'⟩ := ih (ahead.after first) hrest
    refine ⟨record' ++ rest', ?_⟩
    unfold encodePoints
    rw [hrecord', Outcome.ok_bind]
    dsimp only
    rw [hrest']
    rfl

/-- A hidden point at the start is encoded in its own document. -/
theorem encodePoint_opening {document : UInt32} (named : document ≠ 0) :
    encodePoint { document } (.hidden 0 document) = .ok ([0, 0, 0], Context.after { document } (.hidden 0 document)) := by
  have zero : ¬ (document == 0) = true := by simpa using named
  have first : encodeDocument { document } (.hidden 0 document) = .ok [] := by
    unfold encodeDocument PointAt.hidden
    dsimp only
    rw [if_neg zero, if_pos (beq_self_eq_true document)]
  have start : encodeOffset { document } (.hidden 0 document) = .ok [0] := compressed_zero
  unfold encodePoint
  rw [first, Outcome.ok_bind, start, Outcome.ok_bind]
  have hidden : (PointAt.hidden (0 : UInt32) document).isHidden = true := rfl
  dsimp only
  rw [hidden, compressed_zero]
  rfl

/-- A hidden point at the start is encoded by itself. -/
theorem encode_opening {signature document : UInt32} {header : Bytes} (known : compressed signature.toNat = .ok header)
    (named : document ≠ 0) : encode ⟨signature, [.hidden 0 document]⟩ document = .ok (header ++ [0, 0, 0]) := by
  have zero : ¬ (document == 0) = true := by simpa using named
  have run : encodePoints { document } [.hidden 0 document] = .ok [0, 0, 0] := by
    unfold encodePoints
    rw [encodePoint_opening named]
    rfl
  unfold encode
  rw [known, Outcome.ok_bind, if_neg zero]
  dsimp only
  rw [run]
  rfl

theorem all_document {points points' : List SequencePoint} (further : List.Forall₂ (Further n) points points') (document : UInt32) :
    (points'.all fun p => p.document == document) = points.all fun p => p.document == document := by
  induction further with
  | nil => rfl
  | cons own rest ih => rw [List.all_cons, List.all_cons, ih, own.same]

/-- Points behind a hidden one at the start are encoded if they are encoded by themselves. -/
theorem exists_encode_behind {s : SequencePoints} {points' : List SequencePoint} (positive : 0 < n)
    (further : List.Forall₂ (Further n) s.points points') {blob : Bytes} (h : s.encode (s.document?.getD 0) = .ok blob)
    {first : SequencePoint} (front : s.points.head? = some first) : ∃ blob',
      encode ⟨s.localSignature, .hidden 0 first.document :: points'⟩
        ((document? ⟨s.localSignature, .hidden 0 first.document :: points'⟩).getD 0) = .ok blob' := by
  obtain ⟨localSignature, points⟩ := s
  obtain ⟨others, rfl⟩ : ∃ others, points = first :: others := by
    cases points with
    | nil => cases front
    | cons p points =>
      cases front
      exact ⟨points, rfl⟩
  have documents : document? ⟨localSignature, .hidden 0 first.document :: points'⟩ = document? ⟨localSignature, first :: others⟩ := by
    have each := all_document further first.document
    unfold document? PointAt.hidden
    dsimp only
    rw [each, List.all_cons, beq_self_eq_true, Bool.true_and]
  rw [documents]
  unfold encode at h ⊢
  obtain ⟨signature, hsignature, h⟩ := Outcome.bind_eq_ok.mp h
  rw [hsignature, Outcome.ok_bind]
  have points {c : Context} {bytes : Bytes} (start : c = { document := first.document })
      (run : encodePoints c (first :: others) = .ok bytes) :
      ∃ bytes', encodePoints c (.hidden 0 first.document :: points') = .ok bytes' := by
    cases start
    obtain ⟨⟨record, next⟩, hrecord, -⟩ := Outcome.bind_eq_ok.mp run
    have ahead : Context.Ahead n { document := first.document }
        (Context.after { document := first.document } (.hidden 0 first.document)) :=
      ⟨rfl, rfl, fun _ => rfl, fun last shape => by cases shape⟩
    obtain ⟨rest, hrest⟩ := exists_encodePoints_further positive ahead further run
    refine ⟨[0, 0, 0] ++ rest, ?_⟩
    unfold encodePoints
    rw [encodePoint_opening (encodePoint_eq_ok hrecord).2.1, Outcome.ok_bind]
    dsimp only
    rw [hrest]
    rfl
  by_cases several : ((document? ⟨localSignature, first :: others⟩).getD 0 == 0) = true
  · rw [if_pos several] at h ⊢
    obtain ⟨number, hnumber, h⟩ := Outcome.bind_eq_ok.mp h
    obtain ⟨bytes, run, -⟩ := Outcome.bind_eq_ok.mp h
    obtain ⟨bytes', run'⟩ := points rfl run
    exact ⟨_, Outcome.bind_eq_ok.mpr ⟨number, hnumber, Outcome.bind_eq_ok.mpr ⟨bytes', run', rfl⟩⟩⟩
  · rw [if_neg several] at h ⊢
    have one : (document? ⟨localSignature, first :: others⟩).getD 0 = first.document := by
      unfold document? at several ⊢
      dsimp only at several ⊢
      by_cases all : (others.all fun q => q.document == first.document) = true
      · rw [if_pos all]
        rfl
      · rw [if_neg all] at several
        exact absurd rfl several
    obtain ⟨bytes, run, -⟩ := Outcome.bind_eq_ok.mp h
    obtain ⟨bytes', run'⟩ := points (congrArg (fun document => ({ document } : Context)) one) run
    exact ⟨_, Outcome.bind_eq_ok.mpr ⟨bytes', run', rfl⟩⟩

end SequencePoints

namespace Code

/-- Promotion makes no instruction more than three times as long. -/
theorem size_widened_le {before after : Instruction} (widened : Instruction.Widened before after) : after.size ≤ 3 * before.size := by
  have bound (o : OpCode) : 1 ≤ o.size ∧ o.size ≤ 2 := by
    unfold OpCode.size
    split <;> decide
  rcases widened with rfl | ⟨short, ⟨target, operand⟩, rfl⟩
  · omega
  · have first := bound before.opcode
    have second := bound before.long.opcode
    have kind : before.opcode.operandKind = .shortTarget := beq_iff_eq.mp short
    have old : before.operandSize = 1 := by
      unfold Instruction.operandSize
      rw [kind]
      rfl
    have new : before.long.operandSize = 4 := by
      unfold Instruction.operandSize
      rw [(Instruction.long_of_short short).1]
      rfl
    unfold Instruction.size
    omega

theorem codeSize_widened_le {before after : List Instruction} (widened : List.Forall₂ Instruction.Widened before after) :
    codeSize after ≤ 3 * codeSize before := by
  induction widened with
  | nil => exact Nat.le_refl 0
  | cons first others ih =>
    have own := size_widened_le first
    rw [codeSize_cons, codeSize_cons]
    omega

theorem length_le_codeSize (code : List Instruction) : code.length ≤ codeSize code := by
  induction code with
  | nil => exact Nat.le_refl 0
  | cons i code ih =>
    have own := size_pos i
    rw [codeSize_cons, List.length_cons]
    omega

end Code

namespace MethodBody

variable {count documents : Nat} {time : TimeOfDay} {policy : DeadCodePolicy} {b : MethodBody}

/-- There are no more points than instructions behind the last point. -/
theorem length_le_of_checkPoints {previous? : Option Nat} {points : List SourcePoint} (inside : previous?.elim 0 (· + 1) ≤ count)
    (h : checkPoints count documents previous? points = .ok ()) : points.length + previous?.elim 0 (· + 1) ≤ count := by
  induction points generalizing previous? with
  | nil => rwa [List.length_nil, Nat.zero_add]
  | cons p points ih =>
    unfold checkPoints at h
    split at h
    · cases h
    · rename_i bound
      split at h
      · cases h
      · rename_i ordered
        split at h
        · cases h
        · have rest := @ih (some p.place) (Nat.lt_of_not_le bound) h
          rw [Option.elim_some] at rest
          rw [List.length_cons]
          cases previous? with
          | none =>
            rw [Option.elim_none]
            omega
          | some last =>
            rw [Option.any_some, decide_eq_true_eq] at ordered
            rw [Option.elim_some]
            omega

/-- Points behind the first instruction are checked behind a point of it. -/
theorem checkPoints_behind {points : List SourcePoint} (later : ∀ p ∈ points, 0 < p.place)
    (h : checkPoints count documents none points = .ok ()) : checkPoints count documents (some 0) points = .ok () := by
  cases points with
  | nil => rfl
  | cons p points =>
    have behind : ¬ (some 0).any (p.place ≤ ·) = true := by
      have front := later p List.mem_cons_self
      rw [Option.any_some, decide_eq_true_eq, Nat.not_le]
      exact front
    unfold checkPoints at h ⊢
    rw [if_neg behind]
    rwa [if_neg (show ¬ (none : Option Nat).any (p.place ≤ ·) = true from Bool.false_ne_true)] at h

/-- A hidden point of the first instruction is checked like the points behind it. -/
theorem checkPoints_opening {document : UInt32} {rest : List SourcePoint} (inside : 0 < count)
    (named : 0 < document.toNat ∧ document.toNat ≤ documents) :
    checkPoints count documents none (.hidden 0 document :: rest) = checkPoints count documents (some 0) rest := by
  have bad : ¬ (document == 0 || decide (documents < document.toNat)) = true := by
    simp only [Bool.or_eq_true, beq_iff_eq, decide_eq_true_eq, not_or, Nat.not_lt]
    refine ⟨fun zero => ?_, named.2⟩
    rw [zero] at named
    exact absurd named.1 (by decide)
  have within : ¬ count ≤ 0 := Nat.not_le.mpr inside
  rw [checkPoints]
  unfold PointAt.hidden
  dsimp only
  rw [if_neg within, if_neg (show ¬ (none : Option Nat).any (0 ≤ ·) = true from Bool.false_ne_true), if_neg bad]

theorem Placed.woven (placed : b.Placed documents) : (b.woven time policy).Placed documents := by
  have ordered : StrictMono (· + 2 : Nat → Nat) := fun i j less => Nat.add_lt_add_right less 2
  cases policy with
  | preserve =>
    have count : (prologue time ++ b.code.map (InstructionAt.map (· + 2))).length = b.code.length + 2 := by
      rw [prologue, List.length_append, List.length_map, List.length_cons, List.length_singleton]
      omega
    refine ⟨fun r member => ?_, fun symbols shape => ?_⟩
    · obtain ⟨own, inside, rfl⟩ := List.mem_map.mp member
      change Region.Inside (prologue time ++ _).length _
      rw [count]
      exact (Region.inside_map ordered own b.code.length).mpr (placed.regions own inside)
    · obtain ⟨s, present, rfl⟩ := Option.map_eq_some_iff.mp shape
      have checked := placed.points s present
      have moved : checkPoints (b.code.length + 2) documents none (s.points.map (PointAt.map (· + 2))) = .ok () :=
        (@checkPoints_map _ ordered _ _ none _).mpr checked
      change checkPoints (prologue time ++ _).length _ _ ((openingPoint? s).toList ++ _) = _
      rw [count]
      unfold openingPoint?
      cases front : s.points.head? with
      | none => exact moved
      | some first =>
        have named := (names_of_checkPoints checked first (List.mem_of_head? front)).document
        change checkPoints _ _ _ (.hidden 0 first.document :: _) = _
        rw [checkPoints_opening (Nat.succ_pos _) named]
        refine checkPoints_behind (fun p member => ?_) moved
        obtain ⟨own, -, rfl⟩ := List.mem_map.mp member
        exact Nat.succ_pos _
  | strip =>
    refine ⟨fun r member => absurd member List.not_mem_nil, fun symbols shape => ?_⟩
    obtain ⟨s, present, opened⟩ := Option.bind_eq_some_iff.mp shape
    obtain ⟨p, opening, rfl⟩ := Option.map_eq_some_iff.mp opened
    obtain ⟨first, front, rfl⟩ := Option.map_eq_some_iff.mp opening
    have named := (names_of_checkPoints (placed.points s present) first (List.mem_of_head? front)).document
    exact checkPoints_opening (Nat.succ_pos 1) named

/-- The stored points of a moved body are as far ahead as its prologue is long. -/
theorem further_storedPoints (valid : Valid b.code) (small : codeSize b.code ≤ 2 ^ 24) {s : BodySymbols}
    (inside : ∀ p ∈ s.points, p.place < b.code.length) (time : TimeOfDay) :
    List.Forall₂ (SequencePoints.Further 6) (SymbolWriter.storedPoints (offsets (promote b.code)) s).points
      (SymbolWriter.storedPoints (offsets (promote (moved time b.code))) (s.map (· + 2))).points := by
  rw [promote_moved time valid.targets]
  unfold SymbolWriter.storedPoints BodySymbols.map
  dsimp only
  rw [List.map_map, List.forall₂_map_left_iff, List.forall₂_map_right_iff, List.forall₂_same]
  intro p member
  have bound : p.place ≤ (promote b.code).length := by
    rw [← (widened_promote b.code).length_eq]
    exact Nat.le_of_lt (inside p member)
  have later := offset_moved time (promote b.code) bound
  have own := Region.table_offset (promote b.code) bound
  have limit := Nat.le_trans (codeSize_take_le (promote b.code) p.place) (codeSize_widened_le (widened_promote b.code))
  have place : UInt32.toNat (.ofNat ((offsets (moved time (promote b.code))).toArray[p.place + 2]?.getD 0)) =
      6 + (offsets (promote b.code)).toArray[p.place]?.getD 0 := by
    rw [later, UInt32.toNat_ofNat', Nat.mod_eq_of_lt (by omega)]
  refine ⟨rfl, place.trans ?_, Nat.lt_of_le_of_lt place.le (by omega)⟩
  change _ = 6 + UInt32.toNat (.ofNat _)
  rw [UInt32.toNat_ofNat', Nat.mod_eq_of_lt (by omega)]

theorem storedPoints_opening (time : TimeOfDay) (code : List Instruction) (signature document : UInt32) (points : List SourcePoint) :
    SymbolWriter.storedPoints (offsets (moved time code)) ⟨signature, .hidden 0 document :: points⟩ =
      ⟨signature, .hidden 0 document :: (SymbolWriter.storedPoints (offsets (moved time code)) ⟨signature, points⟩).points⟩ := by
  unfold SymbolWriter.storedPoints
  dsimp only
  rw [List.map_cons, offsets_moved]
  rfl

/-- The points of a woven body have a stored form. -/
theorem StoresPoints.woven {m : Module} (stores : b.StoresPoints m) (valid : Valid b.code) (small : codeSize b.code ≤ 2 ^ 24)
    (time : TimeOfDay) (policy : DeadCodePolicy) : (b.woven time policy).StoresPoints m := by
  obtain ⟨placed, blob, encoded, -⟩ := stores
  refine ⟨placed.woven, ?_⟩
  obtain ⟨code, maxStack, initLocals, localSignature, locals, regions, symbols?⟩ := b
  rcases symbols? with _ | ⟨signature, _ | ⟨first, points⟩⟩
  · cases policy <;> exact ⟨[], rfl, by decide⟩
  · cases policy <;> exact ⟨[], rfl, by decide⟩
  · have checked := placed.points _ rfl
    cases policy with
    | preserve =>
      have few := Nat.le_trans (length_le_of_checkPoints (Nat.zero_le _) checked) (length_le_codeSize code)
      rw [Option.elim_none, Nat.add_zero] at few
      have further := further_storedPoints valid small (fun p member => (names_of_checkPoints checked p member).place) time
      obtain ⟨blob', encoded'⟩ := SequencePoints.exists_encode_behind (by decide) further encoded rfl
      have run : SequencePoints.encode (SymbolWriter.storedPoints (offsets (promote (moved time code)))
          ⟨signature, .hidden 0 first.document :: (BodySymbols.map (· + 2) ⟨signature, first :: points⟩).points⟩)
          ((SymbolWriter.storedPoints (offsets (promote (moved time code))) ⟨signature, .hidden 0 first.document ::
            (BodySymbols.map (· + 2) ⟨signature, first :: points⟩).points⟩).document?.getD 0) = .ok blob' := by
        rw [promote_moved time valid.targets] at encoded' ⊢
        rw [storedPoints_opening]
        exact encoded'
      refine ⟨blob', run, ?_⟩
      have bound := SequencePoints.length_encode_le encoded'
      rw [List.length_cons, ← further.length_eq] at bound
      unfold SymbolWriter.storedPoints at bound
      rw [List.length_map] at bound
      dsimp only at few small bound
      omega
    | strip =>
      have named := (names_of_checkPoints checked first List.mem_cons_self).document
      have nonzero : first.document ≠ 0 := by
        rintro zero
        rw [zero] at named
        exact absurd named.1 (by decide)
      obtain ⟨header, hheader, -⟩ := Outcome.bind_eq_ok.mp encoded
      have bare : moved time [] = prologue time := List.append_nil _
      have alone : promote (moved time []) = moved time [] := promote_moved time fun i impossible => by cases impossible
      have stored := storedPoints_opening time [] signature first.document []
      rw [bare] at alone stored
      have run : SequencePoints.encode (SymbolWriter.storedPoints (offsets (promote (prologue time)))
          ⟨signature, [.hidden 0 first.document]⟩) first.document = .ok (header ++ [0, 0, 0]) := by
        rw [alone]
        exact (congrArg (SequencePoints.encode · first.document) stored).trans (SequencePoints.encode_opening hheader nonzero)
      refine ⟨_, run, ?_⟩
      exact Nat.lt_of_le_of_lt (SequencePoints.length_encode_le run) (show 8 + 28 * 1 < 2 ^ 29 by decide)

end MethodBody

end CilWeaver
