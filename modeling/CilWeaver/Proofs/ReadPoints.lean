import CilWeaver.Proofs.PointRecords
import CilWeaver.Proofs.Spans

/-!
Reading source points. A blob holds the signature of the locals, the first document unless it is known, and records.
What was written is read back up to the form of hidden points, and what was read is written again in no more bytes.
-/

namespace CilWeaver

open Step

namespace SequencePoints

open Reader Outcome Compressed

theorem consumes_checkColumn (column : Int) : Consumes (checkColumn column) fun taken n => taken = [] ∧ (n.toNat : Int) = column := by
  unfold checkColumn
  apply Consumes.check
  intro good
  simp only [Bool.or_eq_true, decide_eq_true_eq, not_or, not_lt, not_le] at good
  apply Consumes.pure
  rw [UInt16.toNat_ofNat', Nat.mod_eq_of_lt (by omega)]
  exact ⟨rfl, by omega⟩

/-- What is known about a point that is not hidden once it is read. -/
structure Visible (offset : UInt32) (c : Context) (lines : Nat) (columns : Int) (size : Nat) (p : SequencePoint) : Prop where
  place : p.place = offset
  document : p.document = c.document
  visible : p.isHidden = false
  first : 0 < p.startLine.toNat
  last : p.endLine.toNat = p.startLine.toNat + lines
  bound : p.endLine.toNat ≤ PointAt.maxLine
  columns : (p.endColumn.toNat : Int) - p.startColumn.toNat = columns
  start : Within (encodeStart c p) size

/-- The last steps of reading a point that is not hidden, from its first line and column on. -/
theorem consumes_lines {offset : UInt32} {c : Context} {lines size : Nat} {columns startLine startColumn : Int}
    (start : Within (encodePosition c startLine startColumn) size) :
    Consumes (do
      let endLine := startLine + lines
      if startLine < 1 || PointAt.maxLine < endLine || startLine == PointAt.hiddenLine.toNat then
        Reader.malformed (.pointLines startLine endLine)
      let first ← checkColumn startColumn
      let last ← checkColumn (startColumn + columns)
      return ⟨offset, c.document, .ofNat startLine.toNat, first, .ofNat endLine.toNat, last⟩)
      fun taken p => taken = [] ∧ Visible offset c lines columns size p := by
  apply Consumes.check
  intro good
  simp only [Bool.or_eq_true, decide_eq_true_eq, beq_iff_eq, not_or, not_lt] at good
  rcases good with ⟨⟨positive, bound⟩, visible⟩
  have limit : (PointAt.maxLine : Int) = 0x1FFFFFFF := rfl
  apply (consumes_checkColumn _).bind
  rintro _ low ⟨rfl, hlow⟩
  apply (consumes_checkColumn _).bind
  rintro _ high ⟨rfl, hhigh⟩
  have startSame : ((UInt32.ofNat startLine.toNat).toNat : Int) = startLine := by
    rw [UInt32.toNat_ofNat', Nat.mod_eq_of_lt (by omega)]
    omega
  have endSame : ((UInt32.ofNat (startLine + lines).toNat).toNat : Int) = startLine + lines := by
    rw [UInt32.toNat_ofNat', Nat.mod_eq_of_lt (by omega)]
    omega
  apply Consumes.pure
  refine ⟨rfl, rfl, rfl, ?_, ?_, ?_, ?_, ?_, ?_⟩
  · rw [PointAt.isHidden, beq_eq_false_iff_ne]
    intro hidden
    apply visible
    rw [← startSame]
    exact congrArg (fun line : UInt32 => (line.toNat : Int)) hidden
  · change 0 < (UInt32.ofNat startLine.toNat).toNat
    omega
  · change (UInt32.ofNat (startLine + lines).toNat).toNat = (UInt32.ofNat startLine.toNat).toNat + lines
    omega
  · change (UInt32.ofNat (startLine + lines).toNat).toNat ≤ 0x1FFFFFFF
    omega
  · change (high.toNat : Int) - low.toNat = columns
    omega
  · rw [encodeStart_eq]
    change Within (encodePosition c ((UInt32.ofNat startLine.toNat).toNat : Int) low.toNat) size
    rw [startSame, hlow]
    exact start

theorem consumes_readVisible (offset : UInt32) (c : Context) (lines : Nat) (columns : Int) :
    Consumes (readVisible offset c lines columns) fun taken p => Visible offset c lines columns taken.length p := by
  have finish {size : Nat} {front : Bytes} (enough : size = front.length) {p : SequencePoint} {taken : Bytes}
      (read : taken = [] ∧ Visible offset c lines columns size p) : Visible offset c lines columns (front ++ taken).length p := by
    rw [read.1, List.append_nil, ← enough]
    exact read.2
  unfold readVisible
  cases shape : c.start? with
  | none =>
    apply consumes_compressed.bind
    intro front line first
    apply consumes_compressed.bind
    intro back column second
    have start : Within (encodePosition c line column) (front.length + back.length) := by
      unfold encodePosition
      rw [shape]
      exact first.within.append second.within
    apply (consumes_lines start).mono
    intro taken p read
    rw [← List.append_assoc]
    exact finish List.length_append.symm read
  | some before =>
    apply consumes_compressedInt.bind
    intro front lineStep first
    apply consumes_compressedInt.bind
    intro back columnStep second
    have start : Within (encodePosition c ((before.1.toNat : Int) + lineStep) ((before.2.toNat : Int) + columnStep))
        (front.length + back.length) := by
      unfold encodePosition
      rw [shape]
      dsimp only
      rw [add_sub_cancel_left, add_sub_cancel_left]
      exact first.within.append second.within
    apply (consumes_lines start).mono
    intro taken p read
    rw [← List.append_assoc]
    exact finish List.length_append.symm read

/-- A point that was read at an offset, with the context behind it. -/
structure ReadAt (offset : UInt32) (c : Context) (size : Nat) (found : SequencePoint × Context) : Prop where
  place : found.1.place = offset
  document : found.1.document = c.document
  canonical : found.1.canonical = found.1
  after : found.2 = c.after found.1
  rest : Within (encodeRest c found.1) size

theorem consumes_readPoint (c : Context) (offset : UInt32) :
    Consumes (readPoint c offset) fun taken found => ReadAt offset c taken.length found := by
  unfold readPoint
  apply consumes_compressed.bind
  intro front lines first
  extract_lets rest
  have shape (columns : Int) (back : Bytes) (sign : lines = 0 → 0 ≤ columns) (nonempty : back ≠ [])
      (second : Within (if lines = 0 then compressed columns.toNat else compressedInt columns) back.length) :
      (rest columns).Consumes fun taken found => ReadAt offset c (front ++ (back ++ taken)).length found := by
    apply Consumes.ite
    · intro hidden
      apply Consumes.pure
      refine ⟨rfl, rfl, rfl, rfl, ?_⟩
      refine ⟨[0, 0], rfl, ?_⟩
      have := List.length_pos_iff.mpr first.ne_nil
      have := List.length_pos_iff.mpr nonempty
      simp only [List.append_nil, List.length_append, List.length_cons, List.length_nil]
      omega
    · intro shown
      apply (consumes_readVisible offset c lines columns).bind
      intro taken p found
      apply Consumes.pure
      have last := found.last
      have width := found.columns
      have extent : Extent p := by
        refine ⟨by omega, found.first, found.bound, fun same => ?_⟩
        rw [same] at last
        have none : lines = 0 := by omega
        have wide : columns ≠ 0 := fun zero => shown (by simp [none, zero])
        have := sign none
        omega
      have after : (⟨c.document, some offset, some (p.startLine, p.startColumn)⟩ : Context) = c.after p := by
        unfold Context.after
        rw [found.visible, found.place, found.document]
        rfl
      refine ⟨found.place, found.document, PointAt.canonical_of_visible found.visible, after, ?_⟩
      unfold encodeRest
      rw [if_neg (by rw [found.visible]; exact Bool.false_ne_true)]
      apply ((within_encodeExtent extent last width first.within second).append found.start).mono
      simp only [List.append_nil, List.length_append]
      omega
  apply Consumes.ite
  · intro one
    rw [beq_iff_eq] at one
    have natural : Consumes ((fun n : Nat => (n : Int)) <$> Reader.compressed) fun taken columns =>
        0 ≤ columns ∧ Holds taken columns.toNat := by
      apply Consumes.map'
      apply consumes_compressed.mono
      intro taken n held
      exact ⟨Int.natCast_nonneg n, held⟩
    apply natural.bind
    intro back columns second
    apply shape columns back (fun _ => second.1) second.2.ne_nil
    rw [if_pos one]
    exact second.2.within
  · intro several
    rw [beq_iff_eq] at several
    apply consumes_compressedInt.bind
    intro back columns second
    apply shape columns back (fun none => absurd none several) second.ne_nil
    rw [if_neg several]
    exact second.within

theorem consumes_readDocument (null : Defect) : Consumes (readDocument null) fun taken document =>
    document ≠ 0 ∧ Within (compressed document.toNat) taken.length := by
  unfold readDocument
  apply consumes_compressed.bind
  intro taken number held
  have same := held.toNat_ofNat
  apply Consumes.check
  intro nonzero
  rw [beq_iff_eq] at nonzero
  apply Consumes.pure
  rw [List.append_nil, same]
  refine ⟨fun zero => nonzero ?_, held.within⟩
  rw [← same, zero]
  rfl

/-- A record stands in front of those behind it. -/
theorem consumes_readRecord (c : Context) : Consumes (readRecord c) fun taken found => ∀ points others,
    Recorded found.2 points others → Recorded c (found.1.toList ++ points) (taken.length + others) := by
  have point {front back : Bytes} {offset : UInt32} {found : SequencePoint × Context}
      (place : ∀ p : SequencePoint, p.place = offset → Within (encodeOffset c p) front.length)
      (read : ReadAt offset c back.length found) : ∀ points others, Recorded found.2 points others →
        Recorded c (found.1 :: points) ((front ++ (back ++ [])).length + others) := by
    intro points others next
    rw [read.after] at next
    apply Recorded.point read.document read.canonical (place found.1 read.place) read.rest next
    simp only [List.append_nil, List.length_append, Nat.le_refl]
  unfold readRecord
  apply consumes_compressed.bind
  intro front step held
  have number := held.toNat_ofNat
  cases shape : c.offset? with
  | none =>
    apply (consumes_readPoint c _).bind
    intro back found read
    apply Consumes.pure
    apply point _ read
    intro p place
    unfold encodeOffset
    rw [shape, place, number]
    exact held.within
  | some last =>
    apply Consumes.ite
    · intro none
      apply (consumes_readDocument _).bind
      intro back document named
      apply Consumes.pure
      intro points others next
      have nonempty := List.length_pos_iff.mpr held.ne_nil
      have same : ({ c with document } : Context) = ⟨document, some last, c.start?⟩ := by rw [← shape]
      apply Recorded.move (by rw [shape]; exact Option.some_ne_none last) named.1 named.2 (by rw [same]; exact next)
      simp only [List.append_nil, List.length_append]
      omega
    · intro moved
      rw [beq_iff_eq] at moved
      apply Consumes.check
      intro inside
      have sum : (last + .ofNat step).toNat = last.toNat + step := by
        rw [UInt32.toNat_add, number, Nat.mod_eq_of_lt (by omega)]
      apply (consumes_readPoint c _).bind
      intro back found read
      apply Consumes.pure
      apply point _ read
      intro p place
      have later : last < p.place := by
        rw [UInt32.lt_iff_toNat_lt, place, sum]
        omega
      unfold encodeOffset
      simp only [shape]
      rw [if_pos later, place, sum, Nat.add_sub_cancel_left]
      exact held.within

theorem consumes_readRecords (c : Context) (done : List SequencePoint) (fuel : Nat) :
    Consumes (readRecords c done fuel) fun taken points => ∃ more, points = done.reverse ++ more ∧ Recorded c more taken.length := by
  induction fuel generalizing c done with
  | zero => exact Consumes.pure ⟨[], (List.append_nil _).symm, .stop c _⟩
  | succ fuel ih =>
    unfold readRecords
    apply Consumes.hasMore.bind_nil
    intro more
    apply Consumes.ite
    · intro
      apply (consumes_readRecord c).bind
      intro front found record
      rcases found with ⟨point?, next⟩
      cases point? with
      | none =>
        apply (ih next done).mono
        rintro back points ⟨more, whole, records⟩
        refine ⟨more, whole, ?_⟩
        rw [List.length_append]
        exact record more back.length records
      | some p =>
        apply (ih next (p :: done)).mono
        rintro back points ⟨more, whole, records⟩
        refine ⟨p :: more, by rw [whole, List.reverse_cons, List.append_assoc]; rfl, ?_⟩
        rw [List.length_append]
        exact record more back.length records
    · intro
      exact Consumes.pure ⟨[], (List.append_nil _).symm, .stop c _⟩

/-- What a blob of some size holds: the signature of the locals, the first document unless it is known, and the records. -/
inductive Stored (document : UInt32) (s : SequencePoints) (size : Nat) : Prop
  | intro (signature name records : Nat) (first : UInt32) (locals : Within (compressed s.localSignature.toNat) signature)
      (nonzero : first ≠ 0) (known : if document = 0 then Within (compressed first.toNat) name else first = document)
      (recorded : Recorded { document := first } s.points records) (room : signature + name + records ≤ size)

theorem consumes_read (document : UInt32) : Consumes (read document) fun taken s => Stored document s taken.length := by
  unfold SequencePoints.read
  apply consumes_compressed.bind
  intro front signature held
  have number := held.toNat_ofNat
  extract_lets rest
  have records (first : UInt32) (name : Bytes) (nonzero : first ≠ 0)
      (known : if document = 0 then Within (compressed first.toNat) name.length else first = document) :
      (rest first).Consumes fun taken s => Stored document s (front ++ (name ++ taken)).length := by
    apply Consumes.remaining.bind_nil
    intro fuel
    apply (consumes_readRecords _ [] fuel).bind
    rintro back points ⟨more, rfl, recorded⟩
    apply Consumes.pure
    refine ⟨front.length, name.length, back.length, first, ?_, nonzero, known, recorded, ?_⟩
    · rw [number]
      exact held.within
    · simp only [List.append_nil, List.length_append]
      omega
  apply Consumes.ite
  · intro none
    rw [beq_iff_eq] at none
    apply (consumes_readDocument _).bind
    intro name first named
    apply records first name named.1
    rw [if_pos none]
    exact named.2
  · intro known
    rw [beq_iff_eq] at known
    apply Consumes.bind (Consumes.pure (p := fun taken first => taken = [] ∧ first = document) ⟨rfl, rfl⟩)
    rintro _ first ⟨rfl, rfl⟩
    apply records first [] known
    rw [if_neg known]

theorem stored_of_parse {blob : Bytes} {document : UInt32} {s : SequencePoints} (h : parse blob document = .ok s) :
    Stored document s blob.length := by
  rcases (consumes_read document).parse h with ⟨taken, rest, rfl, ⟨signature, name, records, first, locals, nonzero, known, recorded, room⟩⟩
  refine ⟨signature, name, records, first, locals, nonzero, known, recorded, Nat.le_trans room ?_⟩
  rw [List.length_append]
  exact Nat.le_add_right _ _

/-- Points that were read from a blob can be written with the document that they share, or with that of the first one. -/
theorem exists_encode {blob : Bytes} {document : UInt32} {s : SequencePoints} (h : parse blob document = .ok s)
    (documented : Documented s.points) (nonempty : s.points ≠ []) :
    ∃ bytes, s.encode (s.document?.getD 0) = .ok bytes := by
  rcases stored_of_parse h with ⟨_, _, _, first, ⟨signature, hsignature, -⟩, -, -, recorded, -⟩
  rcases List.exists_cons_of_ne_nil nonempty with ⟨p, ps, shape⟩
  have among : p ∈ s.points := shape ▸ List.mem_cons_self
  rcases documented p among with ⟨named, number⟩
  rcases exists_compressed number with ⟨front, hfront⟩
  rcases recorded.exists_encodePoints documented p.document (fun _ q same => by
    rw [shape] at same
    cases same
    rfl) with ⟨points, hpoints⟩
  unfold encode
  rw [hsignature, Outcome.ok_bind]
  by_cases several : (s.document?.getD 0 == 0) = true
  · rw [if_pos several]
    simp only [shape] at hpoints ⊢
    exact ⟨_, Outcome.bind_eq_ok.mpr ⟨front, hfront, Outcome.bind_eq_ok.mpr ⟨points, hpoints, rfl⟩⟩⟩
  · rw [if_neg several]
    have one : s.document?.getD 0 = p.document := by
      unfold document? at several ⊢
      simp only [shape] at several ⊢
      by_cases all : (ps.all fun q => q.document == p.document) = true
      · rw [if_pos all]
        rfl
      · rw [if_neg all] at several
        exact absurd rfl several
    rw [one]
    exact ⟨_, Outcome.bind_eq_ok.mpr ⟨points, hpoints, rfl⟩⟩

/-- The points of a blob are valid. -/
theorem valid_of_parse {blob : Bytes} {document : UInt32} {s : SequencePoints} (h : parse blob document = .ok s) :
    s.points.Pairwise (fun p q => p.place < q.place) ∧ ∀ p ∈ s.points, p.document ≠ 0 ∧ (p.isHidden = false → Extent p) := by
  rcases stored_of_parse h with ⟨_, _, _, first, -, nonzero, -, recorded, -⟩
  rcases recorded.within nonzero with ⟨bytes, written, -⟩
  rcases valid_of_encodePoints written with ⟨ascending, -, valid⟩
  exact ⟨ascending, valid⟩

/-! There and back -/

variable {s : SequencePoints} {document : UInt32} {blob : Bytes}

theorem parse_undoes_encode (h : s.encode document = .ok blob) : ∃ points,
    parse blob document = .ok ⟨s.localSignature, points⟩ ∧
      List.Forall₂ (fun p q => if p.startLine = PointAt.hiddenLine then q = .hidden p.place p.document else q = p)
        s.points points := by
  refine ⟨s.points.map PointAt.canonical, parse_encode h, ?_⟩
  rw [List.forall₂_map_right_iff, List.forall₂_same]
  intro p _
  by_cases hidden : p.startLine = PointAt.hiddenLine
  · have isHidden : p.isHidden = true := beq_iff_eq.mpr hidden
    rw [if_pos hidden, PointAt.canonical, if_pos isHidden]
  · rw [if_neg hidden, PointAt.canonical_of_visible (beq_eq_false_iff_ne.mpr hidden)]

/-- Points in two documents, one of which is hidden and still has columns. -/
def switching : SequencePoints := ⟨3, [⟨0, 1, 10, 5, 10, 9⟩, ⟨4, 2, PointAt.hiddenLine, 7, 8, 9⟩, ⟨6, 2, 9, 1, 12, 3⟩]⟩

theorem parse_undoes_encode_switching : ∃ points,
    parse [3, 1, 0, 0, 4, 10, 5, 0, 2, 4, 0, 0, 2, 3, 4, 127, 121] 0 = .ok ⟨3, points⟩ ∧
      List.Forall₂ (fun p q => if p.startLine = PointAt.hiddenLine then q = .hidden p.place p.document else q = p)
        switching.points points := by
  have written : switching.encode 0 = .ok [3, 1, 0, 0, 4, 10, 5, 0, 2, 4, 0, 0, 2, 3, 4, 127, 121] := by decide +kernel
  exact parse_undoes_encode written

/-- The first point of a blob stands in its first document, unless a record of a document could stand in front of it. -/
theorem Recorded.first {c : Context} {p : SequencePoint} {points : List SequencePoint} {size : Nat}
    (recorded : Recorded c (p :: points) size) (none : c.offset? = none) : p.document = c.document := by
  cases recorded with
  | move later => exact absurd none later
  | point document => exact document

/-- The writer accepts what was read, and needs no more bytes. -/
theorem Stored.within {size : Nat} (stored : Stored document s size) (known : document ≠ 0 ∨ s.points ≠ []) :
    Within (s.encode document) size := by
  rcases stored with ⟨signature, name, records, first, locals, nonzero, named, recorded, room⟩
  have points := recorded.within nonzero
  unfold encode
  by_cases none : document = 0
  · rw [if_pos none] at named
    rcases List.exists_cons_of_ne_nil (known.resolve_left (not_not.mpr none)) with ⟨p, ps, shape⟩
    have same : p.document = first := (shape ▸ recorded).first rfl
    rw [← same] at named points
    rcases locals with ⟨front, hfront, short⟩
    rcases named with ⟨middle, hmiddle, short'⟩
    rcases points with ⟨back, hback, short''⟩
    refine ⟨front ++ middle ++ back, ?_, ?_⟩
    · simp only [none, hfront, shape, hmiddle, shape ▸ hback, beq_self_eq_true, ↓reduceIte]
      rfl
    · simp only [List.length_append]
      omega
  · rw [if_neg none] at named
    rw [named] at points
    simp only [beq_eq_false_iff_ne.mpr none, Bool.false_eq_true, ↓reduceIte]
    exact (locals.append points).mono (by omega)

/-- Every accepted blob is written again without loss. -/
theorem parse_rewritten (h : parse blob document = .ok s) (known : document ≠ 0 ∨ s.points ≠ []) :
    s.points.Pairwise (fun p q => p.place < q.place) ∧
      (∀ p ∈ s.points, p.document ≠ 0 ∧ (p.isHidden = false → Extent p)) ∧
      ∃ blob', s.encode document = .ok blob' ∧ blob'.length ≤ blob.length ∧ parse blob' document = .ok s := by
  have stored := stored_of_parse h
  rcases stored.within known with ⟨blob', written, short⟩
  rcases valid_of_parse h with ⟨ascending, valid⟩
  refine ⟨ascending, valid, blob', written, short, ?_⟩
  rcases stored with ⟨_, _, _, first, -, -, -, recorded, -⟩
  rw [parse_encode written, recorded.canonical]

/-- A blob with an offset of zero in two bytes, and with records of documents that hold no point. -/
theorem parse_rewritten_redundant : ∃ s, parse [3, 1, 0x80, 0, 0, 4, 10, 5, 0, 3, 0, 2, 4, 0, 0, 2, 3, 4, 127, 121, 0, 1] 0 = .ok s ∧
    ∃ blob', s.encode 0 = .ok blob' ∧ blob'.length ≤ 22 ∧ parse blob' 0 = .ok s := by
  have read : parse [3, 1, 0x80, 0, 0, 4, 10, 5, 0, 3, 0, 2, 4, 0, 0, 2, 3, 4, 127, 121, 0, 1] 0 =
      .ok { switching with points := switching.points.map PointAt.canonical } := by decide +kernel
  exact ⟨_, read, (parse_rewritten read (.inr (by decide))).2.2⟩

end SequencePoints

end CilWeaver
