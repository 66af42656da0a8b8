import CilWeaver.Debug.SequencePoints
import CilWeaver.Proofs.Compressed

/-!
Stored points are read back as they were, except that a hidden point loses its columns and its end.
-/

namespace CilWeaver

namespace PointAt

/-- The point that is read back: hidden points are all alike. -/
def canonical {τ : Type} (p : PointAt τ) : PointAt τ :=
  if p.isHidden then .hidden p.place p.document else p

theorem canonical_map {τ σ : Type} (f : τ → σ) (p : PointAt τ) :
    (p.map f).canonical = p.canonical.map f := by
  unfold canonical
  rw [isHidden_map]
  split
  · rfl
  · rfl

@[simp] theorem place_canonical {τ : Type} (p : PointAt τ) : p.canonical.place = p.place := by
  unfold canonical
  split <;> rfl

@[simp] theorem document_canonical {τ : Type} (p : PointAt τ) : p.canonical.document = p.document := by
  unfold canonical
  split <;> rfl

theorem isHidden_canonical {τ : Type} (p : PointAt τ) : p.canonical.isHidden = p.isHidden := by
  unfold canonical
  split
  · rename_i hidden
    rw [hidden]
    rfl
  · rfl

theorem canonical_of_visible {τ : Type} {p : PointAt τ} (visible : p.isHidden = false) : p.canonical = p := by
  unfold canonical
  rw [visible]
  rfl

end PointAt

namespace SequencePoints

open Reader Step

theorem reads_checkColumn (column : UInt16) (position : Nat) :
    Reads (checkColumn (column.toNat : Int)) position [] column := by
  have bound := column.toNat_lt
  have inside : ((column.toNat : Int) < 0 || (2 ^ 16 : Int) ≤ (column.toNat : Int)) = false := by
    rw [Bool.or_eq_false_iff, decide_eq_false_iff_not, decide_eq_false_iff_not]
    omega
  have read := reads_pure position (UInt16.ofNat column.toNat)
  rw [UInt16.ofNat_toNat] at read
  intro rest
  unfold checkColumn
  simp only [inside, Bool.false_eq_true, ↓reduceIte, Int.toNat_natCast, UInt16.ofNat_toNat]
  exact read rest

/-- The lines of a point that can be stored. -/
structure Extent (p : SequencePoint) : Prop where
  order : p.startLine.toNat ≤ p.endLine.toNat
  start : 0 < p.startLine.toNat
  stop : p.endLine.toNat ≤ PointAt.maxLine
  columns : p.startLine = p.endLine → p.startColumn.toNat < p.endColumn.toNat

/-- The start of a point is read, and the rest of the record after it. -/
theorem reads_start {β : Type} {k : Int × Int → Reader β} {c : Context} {p : SequencePoint}
    {bytes back : Bytes} {result : β} {position : Nat} (h : encodeStart c p = .ok bytes)
    (rest : Reads (k ((p.startLine.toNat : Int), (p.startColumn.toNat : Int))) (position + bytes.length) back
      result) :
    Reads (match c.start? with
      | none => do
        let line ← Reader.compressed
        let column ← Reader.compressed
        let start ← pure ((line : Int), (column : Int))
        k start
      | some (line, column) => do
        let lineStep ← Reader.compressedInt
        let columnStep ← Reader.compressedInt
        let start ← pure ((line.toNat : Int) + lineStep, (column.toNat : Int) + columnStep)
        k start) position (bytes ++ back) result := by
  unfold encodeStart at h
  cases shape : c.start? with
  | none =>
    rw [shape] at h
    obtain ⟨line, hline, h⟩ := Outcome.bind_eq_ok.mp h
    obtain ⟨column, hcolumn, h⟩ := Outcome.bind_eq_ok.mp h
    rw [← Outcome.pure_eq_ok.mp h, List.length_append, ← Nat.add_assoc] at rest
    rw [← Outcome.pure_eq_ok.mp h, List.append_assoc]
    exact (reads_compressed hline position).bind ((reads_compressed hcolumn _).bind rest)
  | some start =>
    obtain ⟨line, column⟩ := start
    rw [shape] at h
    obtain ⟨lineStep, hline, h⟩ := Outcome.bind_eq_ok.mp h
    obtain ⟨columnStep, hcolumn, h⟩ := Outcome.bind_eq_ok.mp h
    rw [← Outcome.pure_eq_ok.mp h, List.length_append, ← Nat.add_assoc] at rest
    rw [← Outcome.pure_eq_ok.mp h, List.append_assoc]
    refine (reads_compressedInt hline position).bind ((reads_compressedInt hcolumn _).bind ?_)
    have lines : (line.toNat : Int) + (p.startLine.toNat - line.toNat) = p.startLine.toNat := by omega
    have columns : (column.toNat : Int) + (p.startColumn.toNat - column.toNat) = p.startColumn.toNat := by
      omega
    rw [← lines, ← columns] at rest
    exact rest

theorem reads_visible {c : Context} {p : SequencePoint} {bytes : Bytes} (h : encodeStart c p = .ok bytes)
    (visible : p.isHidden = false) (extent : Extent p) (document : c.document = p.document)
    (position : Nat) :
    Reads (readVisible p.place c (p.endLine.toNat - p.startLine.toNat)
      ((p.endColumn.toNat : Int) - p.startColumn.toNat)) position bytes p := by
  have lines : (p.startLine.toNat : Int) + ((p.endLine.toNat - p.startLine.toNat : Nat) : Int) =
      p.endLine.toNat := by
    have := extent.order
    omega
  have columns : (p.startColumn.toNat : Int) + ((p.endColumn.toNat : Int) - p.startColumn.toNat) =
      p.endColumn.toNat := by omega
  have notHidden : ((p.startLine.toNat : Int) == (PointAt.hiddenLine.toNat : Int)) = false := by
    rw [beq_eq_false_iff_ne]
    intro same
    rw [PointAt.isHidden, beq_eq_false_iff_ne] at visible
    exact visible (UInt32.toNat.inj (by omega))
  have accepted : (((p.startLine.toNat : Int) < 1 || (PointAt.maxLine : Int) < (p.endLine.toNat : Int)) ||
      (p.startLine.toNat : Int) == (PointAt.hiddenLine.toNat : Int)) = false := by
    have := extent.start
    have := extent.stop
    rw [Bool.or_eq_false_iff, Bool.or_eq_false_iff, decide_eq_false_iff_not, decide_eq_false_iff_not]
    exact ⟨⟨by omega, by omega⟩, notHidden⟩
  rw [← List.append_nil bytes]
  unfold readVisible
  extract_lets finish
  refine reads_start (k := finish) h ?_
  simp only [finish, lines, columns]
  simp only [accepted, Bool.false_eq_true, ↓reduceIte]
  refine (reads_checkColumn p.startColumn _).bind_nil ?_
  have last := (reads_checkColumn p.endColumn (position + bytes.length)).map fun last =>
    (⟨p.place, p.document, p.startLine, p.startColumn, p.endLine, last⟩ : SequencePoint)
  simp only [document, Int.toNat_natCast, UInt32.ofNat_toNat]
  exact last

theorem compressed_zero : compressed 0 = .ok [0] := by decide

/-- The context behind a point. -/
def Context.after (c : Context) (p : SequencePoint) : Context :=
  { document := p.document
    offset? := some p.place
    start? := if p.isHidden then c.start? else some (p.startLine, p.startColumn) }

theorem reads_hidden {c : Context} {p : SequencePoint} {zero zero' : Bytes}
    (first : compressed 0 = .ok zero) (second : compressed 0 = .ok zero') (hidden : p.isHidden = true)
    (document : c.document = p.document) (position : Nat) :
    Reads (readPoint c p.place) position (zero ++ zero') (p.canonical, c.after p) := by
  have result : (p.canonical, c.after p) =
      ((.hidden p.place c.document, { c with offset? := some p.place }) : SequencePoint × Context) := by
    rw [PointAt.canonical, Context.after, if_pos hidden, if_pos hidden, document]
  rw [result, ← List.append_nil zero']
  refine (reads_compressed first position).bind ((Reads.map' (reads_compressed second _) _).bind ?_)
  exact reads_pure _ _

/-- What the extent of a point is written as. -/
theorem encodeExtent_eq_ok {p : SequencePoint} {extent : Bytes} (h : encodeExtent p = .ok extent) :
    Extent p ∧ ∃ first second, extent = first ++ second ∧
      compressed (p.endLine.toNat - p.startLine.toNat) = .ok first ∧
      (if (p.endLine.toNat - p.startLine.toNat == 0) = true then
        compressed ((p.endColumn.toNat : Int) - p.startColumn.toNat).toNat
        else compressedInt ((p.endColumn.toNat : Int) - p.startColumn.toNat)) = .ok second := by
  unfold encodeExtent fault at h
  dsimp only at h
  split at h
  · cases h
  · rename_i lines
    split at h
    · cases h
    · rename_i columns
      have start : p.startLine ≠ 0 := fun zero => lines (by simp [zero])
      have positive : p.startLine.toNat ≠ 0 := fun zero => start (UInt32.toNat.inj (by rw [zero]; rfl))
      simp only [Bool.or_eq_true, Bool.and_eq_true, decide_eq_true_eq, beq_iff_eq, not_or, not_and,
        UInt32.lt_iff_toNat_lt] at lines columns
      refine ⟨⟨by omega, by omega, by omega, fun same => ?_⟩, ?_⟩
      · have := columns (by rw [same, Nat.sub_self])
        omega
      · obtain ⟨first, hfirst, h⟩ := Outcome.bind_eq_ok.mp h
        refine ⟨first, ?_⟩
        split at h
        · rename_i same
          rw [if_pos same]
          obtain ⟨second, hsecond, h⟩ := Outcome.bind_eq_ok.mp h
          exact ⟨second, (Outcome.pure_eq_ok.mp h).symm, hfirst, hsecond⟩
        · rename_i other
          rw [if_neg other]
          obtain ⟨second, hsecond, h⟩ := Outcome.bind_eq_ok.mp h
          exact ⟨second, (Outcome.pure_eq_ok.mp h).symm, hfirst, hsecond⟩

theorem reads_point {c : Context} {p : SequencePoint} {extent start : Bytes} (visible : p.isHidden = false)
    (hextent : encodeExtent p = .ok extent) (hstart : encodeStart c p = .ok start)
    (document : c.document = p.document) (position : Nat) :
    Reads (readPoint c p.place) position (extent ++ start) (p.canonical, c.after p) := by
  have result : (p.canonical, c.after p) =
      ((p, { c with offset? := some p.place, start? := some (p.startLine, p.startColumn) }) :
        SequencePoint × Context) := by
    have shown : ¬ p.isHidden = true := by rw [visible]; exact Bool.false_ne_true
    rw [PointAt.canonical, Context.after, if_neg shown, if_neg shown, document]
  obtain ⟨inside, first, second, rfl, hfirst, hsecond⟩ := encodeExtent_eq_ok hextent
  have last := fun position => (reads_visible hstart visible inside document position).map fun q =>
    ((q, { c with offset? := some p.place, start? := some (q.startLine, q.startColumn) }) :
      SequencePoint × Context)
  rw [result, List.append_assoc]
  refine (reads_compressed hfirst position).bind ?_
  by_cases oneLine : p.endLine.toNat - p.startLine.toNat = 0
  · have same : (p.endLine.toNat - p.startLine.toNat == 0) = true := beq_iff_eq.mpr oneLine
    rw [if_pos same] at hsecond
    have lines : p.startLine = p.endLine := UInt32.toNat.inj (by
      have := inside.order
      omega)
    have columns := inside.columns lines
    have nonneg : (((p.endColumn.toNat : Int) - p.startColumn.toNat).toNat : Int) =
        (p.endColumn.toNat : Int) - p.startColumn.toNat := by omega
    have positive : ((p.endColumn.toNat : Int) - p.startColumn.toNat == 0) = false := by
      rw [beq_eq_false_iff_ne]
      omega
    have read := Reads.map' (reads_compressed hsecond (position + first.length)) fun n : Nat => (n : Int)
    rw [nonneg] at read
    simp only [same, ↓reduceIte]
    refine read.bind ?_
    simp only [positive, Bool.and_false, Bool.false_eq_true, ↓reduceIte]
    exact last _
  · have other : (p.endLine.toNat - p.startLine.toNat == 0) = false := beq_eq_false_iff_ne.mpr oneLine
    rw [if_neg (by rw [other]; exact Bool.false_ne_true)] at hsecond
    simp only [other, Bool.false_eq_true, ↓reduceIte]
    refine (reads_compressedInt hsecond _).bind ?_
    simp only [Bool.false_and, Bool.false_eq_true, ↓reduceIte]
    exact last _

/-- A record is read in the document of its point. -/
def Context.inDocument (c : Context) (p : SequencePoint) : Context := { c with document := p.document }

/-- The record of a point in the current document. -/
theorem reads_record {c : Context} {p : SequencePoint} {offset rest : Bytes}
    (hoffset : encodeOffset c p = .ok offset)
    (hpoint : ∀ position, Reads (readPoint c p.place) position rest (p.canonical, c.after p))
    (position : Nat) :
    Reads (readRecord c) position (offset ++ rest) (some p.canonical, c.after p) := by
  have last := fun position => (hpoint position).map fun read => (some read.1, read.2)
  unfold encodeOffset at hoffset
  unfold readRecord
  cases shape : c.offset? with
  | none =>
    rw [shape] at hoffset
    refine (reads_compressed hoffset position).bind ?_
    dsimp only
    rw [UInt32.ofNat_toNat]
    exact last _
  | some before =>
    rw [shape] at hoffset
    dsimp only at hoffset
    split at hoffset
    · rename_i less
      rw [UInt32.lt_iff_toNat_lt] at less
      have bound := p.place.toNat_lt
      have step : (p.place.toNat - before.toNat == 0) = false := by
        rw [beq_eq_false_iff_ne]
        omega
      have inside : ¬ 2 ^ 32 ≤ before.toNat + (p.place.toNat - before.toNat) := by omega
      have place : before + UInt32.ofNat (p.place.toNat - before.toNat) = p.place := by
        apply UInt32.toNat.inj
        rw [UInt32.toNat_add, UInt32.toNat_ofNat']
        omega
      refine (reads_compressed hoffset position).bind ?_
      simp only [step, Bool.false_eq_true, ↓reduceIte, inside]
      rw [place]
      exact last _
    · cases hoffset

theorem reads_readDocument {document : UInt32} {number : Bytes} (hnumber : compressed document.toNat = .ok number)
    (nonzero : document ≠ 0) (null : Defect) (position : Nat) :
    Reads (readDocument null) position number document := by
  have positive : (document.toNat == 0) = false := by
    rw [beq_eq_false_iff_ne]
    exact fun zero => nonzero (UInt32.toNat.inj (by rw [zero]; rfl))
  unfold readDocument
  rw [← List.append_nil number]
  refine (reads_compressed hnumber _).bind ?_
  simp only [positive, Bool.false_eq_true, ↓reduceIte]
  rw [UInt32.ofNat_toNat]
  exact reads_pure _ _

/-- The record that moves on to another document. -/
theorem reads_documentRecord {c : Context} {p : SequencePoint} {zero number : Bytes} {before : UInt32}
    (shape : c.offset? = some before) (hzero : compressed 0 = .ok zero)
    (hnumber : compressed p.document.toNat = .ok number) (nonzero : p.document ≠ 0) (position : Nat) :
    Reads (readRecord c) position (zero ++ number) (none, c.inDocument p) := by
  have result : c.inDocument p = ⟨p.document, some before, c.start?⟩ := by
    rw [Context.inDocument, shape]
  rw [result]
  unfold readRecord
  refine (reads_compressed hzero position).bind ?_
  simp only [shape, beq_self_eq_true, ↓reduceIte]
  exact (reads_readDocument hnumber nonzero _ _).map fun document =>
    ((none, ⟨document, some before, c.start?⟩) : Option SequencePoint × Context)

/-- The record of a point without its document and its offset. -/
def encodeRest (c : Context) (p : SequencePoint) : Result Bytes :=
  if p.isHidden then .ok [0, 0] else do return (← encodeExtent p) ++ (← encodeStart c p)

theorem encodePoint_eq (c : Context) (p : SequencePoint) : encodePoint c p = do
    let document ← encodeDocument c p
    let offset ← encodeOffset c p
    let rest ← encodeRest c p
    return (document ++ offset ++ rest, c.after p) := by
  unfold encodePoint encodeRest Context.after
  cases encodeDocument c p with
  | error e => rfl
  | ok document =>
    cases encodeOffset c p with
    | error e => rfl
    | ok offset =>
      cases p.isHidden with
      | true => rfl
      | false =>
        have start : encodeStart { c with document := p.document, offset? := some p.place } p = encodeStart c p := rfl
        simp only [Outcome.ok_bind, Bool.false_eq_true, ↓reduceIte, start]
        cases encodeExtent p with
        | error e => rfl
        | ok extent =>
          cases encodeStart c p with
          | error e => rfl
          | ok start =>
            simp only [Outcome.ok_bind, List.append_assoc]
            rfl

theorem reads_rest {c : Context} {p : SequencePoint} {rest : Bytes} (h : encodeRest c p = .ok rest)
    (document : c.document = p.document) (position : Nat) : Reads (readPoint c p.place) position rest (p.canonical, c.after p) := by
  unfold encodeRest at h
  by_cases hidden : p.isHidden = true
  · rw [if_pos hidden] at h
    cases h
    exact reads_hidden compressed_zero compressed_zero hidden document position
  · rw [if_neg hidden] at h
    obtain ⟨extent, hextent, h⟩ := Outcome.bind_eq_ok.mp h
    obtain ⟨start, hstart, h⟩ := Outcome.bind_eq_ok.mp h
    cases Outcome.pure_eq_ok.mp h
    exact reads_point (by simpa using hidden) hextent hstart document position

/-- A record is one of a document, if the document changes, and one of the point. -/
theorem encodePoint_eq_ok {c c' : Context} {p : SequencePoint} {record : Bytes}
    (h : encodePoint c p = .ok (record, c')) :
    c' = c.after p ∧ p.document ≠ 0 ∧ ∃ document point, record = document ++ point ∧ point ≠ [] ∧
      (∀ position, Reads (readRecord (c.inDocument p)) position point (some p.canonical, c.after p)) ∧
      ((c.document = p.document ∧ document = []) ∨
        (document ≠ [] ∧ ∀ position, Reads (readRecord c) position document (none, c.inDocument p))) := by
  rw [encodePoint_eq] at h
  obtain ⟨document, hdocument, h⟩ := Outcome.bind_eq_ok.mp h
  obtain ⟨offset, hoffset, h⟩ := Outcome.bind_eq_ok.mp h
  obtain ⟨rest, hrest, h⟩ := Outcome.bind_eq_ok.mp h
  cases Outcome.pure_eq_ok.mp h
  have positive : offset ≠ [] := by
    unfold encodeOffset fault at hoffset
    split at hoffset
    · exact compressed_ne_nil hoffset
    · split at hoffset
      · exact compressed_ne_nil hoffset
      · cases hoffset
  have change : p.document ≠ 0 ∧ ((c.document = p.document ∧ document = []) ∨
      (document ≠ [] ∧ ∀ position, Reads (readRecord c) position document (none, c.inDocument p))) := by
    unfold encodeDocument fault at hdocument
    split at hdocument
    · cases hdocument
    · rename_i nonzero
      rw [beq_iff_eq] at nonzero
      refine ⟨nonzero, ?_⟩
      split at hdocument
      · rename_i same
        exact .inl ⟨(beq_iff_eq.mp same).symm, (Except.ok.inj hdocument).symm⟩
      · split at hdocument
        · cases hdocument
        · rename_i defined
          obtain ⟨before, shape⟩ : ∃ before, c.offset? = some before := by
            cases shape : c.offset? with
            | none => rw [shape] at defined; exact absurd rfl defined
            | some before => exact ⟨before, rfl⟩
          obtain ⟨zero, hzero, hdocument⟩ := Outcome.bind_eq_ok.mp hdocument
          obtain ⟨number, hnumber, hdocument⟩ := Outcome.bind_eq_ok.mp hdocument
          rw [← Outcome.pure_eq_ok.mp hdocument]
          refine .inr ⟨?_, reads_documentRecord shape hzero hnumber nonzero⟩
          exact List.append_ne_nil_of_left_ne_nil (compressed_ne_nil hzero) number
  have same : encodeRest (c.inDocument p) p = encodeRest c p := rfl
  rw [← same] at hrest
  have point : ∀ position, Reads (readRecord (c.inDocument p)) position (offset ++ rest) (some p.canonical, c.after p) :=
    reads_record hoffset (reads_rest hrest rfl)
  have nonempty : offset ++ rest ≠ [] := List.append_ne_nil_of_left_ne_nil positive rest
  exact ⟨rfl, change.1, document, offset ++ rest, List.append_assoc document offset rest, nonempty, point, change.2⟩

theorem hasMore_of_ne_nil {position : Nat} {bytes : Bytes} (h : bytes ≠ []) :
    hasMore ⟨position, bytes⟩ = .ok true ⟨position, bytes⟩ := by
  cases bytes with
  | nil => exact absurd rfl h
  | cons b bytes => rfl

/-- One round of the loop that reads records. -/
theorem readRecords_step {c c' : Context} {done : List SequencePoint} {fuel position : Nat} {front back : Bytes}
    {found? : Option SequencePoint} (nonempty : front ≠ [])
    (reads : Reads (readRecord c) position front (found?, c')) :
    readRecords c done (fuel + 1) ⟨position, front ++ back⟩ =
      readRecords c' (found?.toList ++ done) fuel ⟨position + front.length, back⟩ := by
  have more := @hasMore_of_ne_nil position (front ++ back) (List.append_ne_nil_of_left_ne_nil nonempty back)
  rw [readRecords, bind_of_ok more]
  simp only [↓reduceIte]
  rw [bind_of_ok (reads back)]
  cases found? <;> rfl

/-- The records of all points are read up to the end. -/
theorem readRecords_encodePoints {c : Context} {points : List SequencePoint} {bytes : Bytes}
    (h : encodePoints c points = .ok bytes) (done : List SequencePoint) (position : Nat) {fuel : Nat}
    (enough : bytes.length ≤ fuel) :
    readRecords c done fuel ⟨position, bytes⟩ =
      .ok (done.reverse ++ points.map PointAt.canonical) ⟨position + bytes.length, []⟩ := by
  induction points generalizing c bytes done position fuel with
  | nil =>
    cases h
    cases fuel with
    | zero => simp [readRecords, pure_apply]
    | succ fuel => simp [readRecords, bind_apply, hasMore, pure_apply]
  | cons p points ih =>
    obtain ⟨⟨record, c'⟩, hrecord, h⟩ := Outcome.bind_eq_ok.mp h
    obtain ⟨others, hothers, h⟩ := Outcome.bind_eq_ok.mp h
    rw [← Outcome.pure_eq_ok.mp h] at enough ⊢
    obtain ⟨rfl, -, document, point, rfl, nonempty, reads, change⟩ := encodePoint_eq_ok hrecord
    have positive : 0 < point.length := List.length_pos_iff.mpr nonempty
    -- The point of the record, once the document is the current one.
    have pointed : ∀ position fuel, (point ++ others).length ≤ fuel →
        readRecords (c.inDocument p) done fuel ⟨position, point ++ others⟩ =
          .ok (done.reverse ++ (p :: points).map PointAt.canonical)
            ⟨position + (point ++ others).length, []⟩ := by
      intro position fuel enough
      rw [List.length_append] at enough ⊢
      obtain ⟨fuel, rfl⟩ : ∃ less, fuel = less + 1 := ⟨fuel - 1, by omega⟩
      rw [readRecords_step nonempty (reads position)]
      have rest := ih hothers (p.canonical :: done) (position + point.length) (show others.length ≤ fuel by omega)
      rw [List.reverse_cons, List.append_assoc] at rest
      rw [← Nat.add_assoc]
      exact rest
    rcases change with ⟨same, rfl⟩ | ⟨changed, moves⟩
    · have current : c.inDocument p = c := by
        rw [Context.inDocument, ← same]
      rw [List.nil_append, ← current]
      exact pointed position fuel enough
    · have moved : 0 < document.length := List.length_pos_iff.mpr changed
      rw [List.append_assoc] at enough ⊢
      rw [List.length_append] at enough ⊢
      obtain ⟨fuel, rfl⟩ : ∃ less, fuel = less + 1 := ⟨fuel - 1, by omega⟩
      rw [readRecords_step changed (moves position), ← Nat.add_assoc]
      exact pointed _ _ (by omega)

/-- Stored points are read back, with hidden points in their one form. -/
theorem parse_encode {s : SequencePoints} {document : UInt32} {blob : Bytes} (h : s.encode document = .ok blob) :
    parse blob document = .ok ⟨s.localSignature, s.points.map PointAt.canonical⟩ := by
  have records : ∀ {first : UInt32} {records : Bytes},
      encodePoints { document := first } s.points = .ok records → ∀ position,
      (do
        let points ← readRecords { document := first } [] (← Reader.remaining)
        return (⟨.ofNat s.localSignature.toNat, points⟩ : SequencePoints)) ⟨position, records⟩ =
      .ok ⟨s.localSignature, s.points.map PointAt.canonical⟩ ⟨position + records.length, []⟩ := by
    intro first records hrecords position
    have run := readRecords_encodePoints hrecords [] position (Nat.le_refl _)
    rw [bind_of_ok (show Reader.remaining ⟨position, records⟩ = .ok records.length ⟨position, records⟩ from rfl),
      bind_of_ok run, UInt32.ofNat_toNat]
    rfl
  unfold encode fault at h
  obtain ⟨signature, hsignature, h⟩ := Outcome.bind_eq_ok.mp h
  have start := reads_compressed hsignature 0
  unfold parse Reader.parse EStateM.run Cursor.start read
  split at h
  · rename_i none
    cases shape : s.points with
    | nil =>
      rw [shape] at h
      cases h
    | cons p points =>
      rw [shape] at h
      obtain ⟨first, hfirst, h⟩ := Outcome.bind_eq_ok.mp h
      obtain ⟨rest, hrest, h⟩ := Outcome.bind_eq_ok.mp h
      rw [← Outcome.pure_eq_ok.mp h, List.append_assoc, bind_of_ok (start (first ++ rest))]
      obtain ⟨record, hrecord, -⟩ := Outcome.bind_eq_ok.mp hrest
      have nonzero := (encodePoint_eq_ok hrecord).2.1
      have named := reads_readDocument hfirst nonzero .pointsWithoutDocument (0 + signature.length)
      rw [← shape] at hrest
      simp only [none, ↓reduceIte]
      rw [bind_of_ok (named rest), records hrest, ← shape]
  · rename_i other
    obtain ⟨rest, hrest, h⟩ := Outcome.bind_eq_ok.mp h
    rw [← Outcome.pure_eq_ok.mp h, bind_of_ok (start rest)]
    simp only [other, Bool.false_eq_true, ↓reduceIte]
    have run := records hrest (0 + signature.length)
    rw [bind_of_ok (show (pure document : Reader UInt32) _ = .ok document _ from rfl), run]

theorem mem_of_document? {s : SequencePoints} {document : UInt32}
    (h : s.document? = some document) : ∃ p ∈ s.points, p.document = document := by
  unfold document? at h
  split at h
  · cases h
  · rename_i p points shape
    split at h
    · cases h
      exact ⟨p, shape ▸ List.mem_cons_self, rfl⟩
    · cases h

theorem encode_ne_nil {s : SequencePoints} {document : UInt32} {blob : Bytes}
    (h : s.encode document = .ok blob) : blob ≠ [] := by
  unfold encode fault at h
  obtain ⟨signature, hsignature, h⟩ := Outcome.bind_eq_ok.mp h
  have nonempty := compressed_ne_nil hsignature
  split at h
  · split at h
    · cases h
    · obtain ⟨first, -, h⟩ := Outcome.bind_eq_ok.mp h
      obtain ⟨records, -, h⟩ := Outcome.bind_eq_ok.mp h
      rw [← Outcome.pure_eq_ok.mp h]
      simp [nonempty]
  · obtain ⟨records, -, h⟩ := Outcome.bind_eq_ok.mp h
    rw [← Outcome.pure_eq_ok.mp h]
    simp [nonempty]

/-- Hidden points are written in the one form that is read. -/
theorem encodePoint_canonical (c : Context) (p : SequencePoint) : encodePoint c p.canonical = encodePoint c p := by
  unfold encodePoint encodeDocument encodeOffset
  by_cases hidden : p.isHidden = true
  · simp only [PointAt.place_canonical, PointAt.document_canonical, PointAt.isHidden_canonical, hidden, ↓reduceIte]
  · rw [PointAt.canonical_of_visible (Bool.not_eq_true _ ▸ hidden)]

theorem encodePoints_canonical (c : Context) (points : List SequencePoint) :
    encodePoints c (points.map PointAt.canonical) = encodePoints c points := by
  induction points generalizing c with
  | nil => rfl
  | cons p points ih =>
    rw [List.map_cons, encodePoints, encodePoints, encodePoint_canonical]
    simp only [ih]

theorem encode_canonical (s : SequencePoints) (document : UInt32) :
    encode { s with points := s.points.map PointAt.canonical } document = s.encode document := by
  unfold encode
  dsimp only
  rw [encodePoints_canonical]
  cases s.points with
  | nil => rfl
  | cons p points =>
    have rest := fun first => encodePoints_canonical { document := first } (p :: points)
    rw [List.map_cons] at rest ⊢
    simp only [PointAt.document_canonical, rest]

theorem document?_canonical (s : SequencePoints) :
    document? { s with points := s.points.map PointAt.canonical } = s.document? := by
  unfold document?
  cases s.points with
  | nil => rfl
  | cons p points =>
    rw [List.map_cons]
    dsimp only
    rw [List.all_map, PointAt.document_canonical]
    have same : ((fun q : SequencePoint => q.document == p.document) ∘ PointAt.canonical) =
        fun q => q.document == p.document := by
      funext q
      exact congrArg (· == p.document) q.document_canonical
    rw [same]

end SequencePoints

end CilWeaver
