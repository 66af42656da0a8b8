import CilWeaver.Proofs.Points

/-!
The records of source points. A record moves on to another document or holds a point, as the differences to the points
in front of it. Points are written in the room of any records that they have.
-/

namespace CilWeaver

open Step

namespace SequencePoints

open Reader Outcome Compressed

/-! The steps of the writer -/

/-- The first line and column of a point, behind the points of the context. -/
def encodePosition (c : Context) (line column : Int) : Result Bytes :=
  match c.start? with
  | none => do return (← compressed line.toNat) ++ (← compressed column.toNat)
  | some (line', column') => do return (← compressedInt (line - line'.toNat)) ++ (← compressedInt (column - column'.toNat))

theorem encodeStart_eq (c : Context) (p : SequencePoint) :
    encodeStart c p = encodePosition c p.startLine.toNat p.startColumn.toNat := by
  unfold encodeStart encodePosition
  cases c.start? <;> rfl

theorem within_encodeExtent {p : SequencePoint} {lines a b : Nat} {columns : Int} (extent : Extent p)
    (last : p.endLine.toNat = p.startLine.toNat + lines) (width : (p.endColumn.toNat : Int) - p.startColumn.toNat = columns)
    (first : Within (compressed lines) a)
    (second : Within (if lines = 0 then compressed columns.toNat else compressedInt columns) b) :
    Within (encodeExtent p) (a + b) := by
  rcases extent with ⟨order, start, stop, ordered⟩
  have accepted : ¬ (decide (p.endLine < p.startLine) || p.startLine == 0 || decide (PointAt.maxLine < p.endLine.toNat)) = true := by
    simp only [Bool.or_eq_true, decide_eq_true_eq, beq_iff_eq, not_or, UInt32.lt_iff_toNat_lt]
    refine ⟨⟨by omega, fun zero => ?_⟩, by omega⟩
    rw [zero] at start
    exact absurd start (by decide)
  have difference : p.endLine.toNat - p.startLine.toNat = lines := by omega
  have together := first.append second
  unfold encodeExtent
  simp only [accepted, difference, width, Bool.false_eq_true, ↓reduceIte]
  by_cases none : lines = 0
  · have same : p.startLine = p.endLine := UInt32.toNat.inj (by omega)
    have wide : ¬ columns ≤ 0 := by
      have := ordered same
      omega
    simp only [none, wide, beq_self_eq_true, decide_false, Bool.and_false, Bool.false_eq_true, ↓reduceIte] at together ⊢
    exact together
  · have several : (lines == 0) = false := beq_eq_false_iff_ne.mpr none
    simp only [several, none, Bool.false_and, Bool.false_eq_true, ↓reduceIte] at together ⊢
    exact together

/-! Records of points -/

/-- The records of a blob from a context on, which take no more bytes than `size`. The differences of a point can be
    written in the room that they take. -/
inductive Recorded : Context → List SequencePoint → Nat → Prop where
  | stop (c : Context) (size : Nat) : Recorded c [] size
  | move {c : Context} {document : UInt32} {points : List SequencePoint} {name others size : Nat} (later : c.offset? ≠ none)
      (nonzero : document ≠ 0) (named : Within (compressed document.toNat) name)
      (next : Recorded { c with document } points others) (room : 1 + name + others ≤ size) : Recorded c points size
  | point {c : Context} {p : SequencePoint} {points : List SequencePoint} {offset rest others size : Nat}
      (document : p.document = c.document) (canonical : p.canonical = p) (place : Within (encodeOffset c p) offset)
      (written : Within (encodeRest c p) rest) (next : Recorded (c.after p) points others)
      (room : offset + rest + others ≤ size) : Recorded c (p :: points) size

theorem encodeDocument_same {c : Context} {p : SequencePoint} (nonzero : p.document ≠ 0) (same : p.document = c.document) :
    encodeDocument c p = .ok [] := by
  unfold encodeDocument
  rw [if_neg (by simpa using nonzero), if_pos (by simpa using same)]

/-- Without a move to another document, a point names its document in the room of the move. -/
theorem within_encodeDocument {c : Context} {p : SequencePoint} {document : UInt32} {name size : Nat} (later : c.offset? ≠ none)
    (named : Within (compressed document.toNat) name) (written : Within (encodeDocument { c with document } p) size) :
    Within (encodeDocument c p) (1 + name + size) := by
  rcases written with ⟨bytes, same, short⟩
  have known : ¬ c.offset?.isNone = true := by simpa using later
  unfold encodeDocument fault at same ⊢
  split at same
  · cases same
  · rename_i nonzero
    rw [if_neg nonzero]
    by_cases current : (p.document == c.document) = true
    · rw [if_pos current]
      exact ⟨[], rfl, Nat.zero_le _⟩
    · rw [if_neg current, if_neg known]
      split at same
      · rename_i moved
        rw [beq_iff_eq] at moved
        rw [moved]
        have zero : Within (compressed 0) 1 := ⟨[0], compressed_zero, Nat.le_refl _⟩
        exact (zero.append named).mono (Nat.le_add_right _ _)
      · exact ⟨bytes, same, by omega⟩

/-- The steps of writing points. -/
theorem encodePoints_cons {c : Context} {p : SequencePoint} {points : List SequencePoint} {bytes : Bytes} :
    encodePoints c (p :: points) = .ok bytes ↔ ∃ document offset rest others, encodeDocument c p = .ok document ∧
      encodeOffset c p = .ok offset ∧ encodeRest c p = .ok rest ∧ encodePoints (c.after p) points = .ok others ∧
      bytes = document ++ offset ++ rest ++ others := by
  rw [encodePoints, encodePoint_eq]
  constructor
  · intro h
    rcases bind_eq_ok.mp h with ⟨record, one, h⟩
    rcases bind_eq_ok.mp one with ⟨document, hdocument, one⟩
    rcases bind_eq_ok.mp one with ⟨offset, hoffset, one⟩
    rcases bind_eq_ok.mp one with ⟨rest, hrest, one⟩
    cases pure_eq_ok.mp one
    rcases bind_eq_ok.mp h with ⟨others, hothers, h⟩
    exact ⟨document, offset, rest, others, hdocument, hoffset, hrest, hothers, (pure_eq_ok.mp h).symm⟩
  · rintro ⟨document, offset, rest, others, hdocument, hoffset, hrest, hothers, rfl⟩
    rw [hdocument, ok_bind, hoffset, ok_bind, hrest, ok_bind]
    change (encodePoints (c.after p) points >>= fun others => pure (document ++ offset ++ rest ++ others)) = _
    rw [hothers]
    rfl

theorem within_of_move {c : Context} {points : List SequencePoint} {document : UInt32} {name size : Nat}
    (later : c.offset? ≠ none) (named : Within (compressed document.toNat) name)
    (written : Within (encodePoints { c with document } points) size) : Within (encodePoints c points) (1 + name + size) := by
  cases points with
  | nil => exact ⟨[], rfl, Nat.zero_le _⟩
  | cons p points =>
    rcases written with ⟨bytes, same, short⟩
    rcases encodePoints_cons.mp same with ⟨front, offset, rest, others, hfront, hoffset, hrest, hothers, rfl⟩
    rcases within_encodeDocument later named ⟨front, hfront, Nat.le_refl _⟩ with ⟨front', hfront', short'⟩
    refine ⟨front' ++ offset ++ rest ++ others, ?_, ?_⟩
    · exact encodePoints_cons.mpr ⟨front', offset, rest, others, hfront', hoffset, hrest, hothers, rfl⟩
    · simp only [List.length_append] at short ⊢
      omega

/-- Points are written again in no more bytes than their records. -/
theorem Recorded.within {c : Context} {points : List SequencePoint} {size : Nat} (recorded : Recorded c points size)
    (nonzero : c.document ≠ 0) : Within (encodePoints c points) size := by
  induction recorded with
  | stop c size => exact ⟨[], rfl, Nat.zero_le _⟩
  | move later named written next room ih => exact (within_of_move later written (ih named)).mono room
  | @point c p points offset rest others size document canonical place written next room ih =>
    have named : p.document ≠ 0 := by rwa [document]
    rcases place with ⟨front, hfront, short⟩
    rcases written with ⟨middle, hmiddle, short'⟩
    rcases ih named with ⟨back, hback, short''⟩
    refine ⟨front ++ middle ++ back, ?_, ?_⟩
    · exact encodePoints_cons.mpr ⟨[], front, middle, back, encodeDocument_same named document, hfront, hmiddle, hback, rfl⟩
    · simp only [List.length_append]
      omega

/-- What was read from records has hidden points in their one form. -/
theorem Recorded.canonical {c : Context} {points : List SequencePoint} {size : Nat} (recorded : Recorded c points size) :
    points.map PointAt.canonical = points := by
  induction recorded with
  | stop c size => rfl
  | move later named written next room ih => exact ih
  | point document canonical place written next room ih => rw [List.map_cons, canonical, ih]

/-- The documents of points can be stored. -/
def Documented (points : List SequencePoint) : Prop := ∀ p ∈ points, p.document ≠ 0 ∧ p.document.toNat < 2 ^ 29

/-- Points with documents that can be stored are written from any document on, the first one from its own. -/
theorem Recorded.exists_encodePoints {c : Context} {points : List SequencePoint} {size : Nat} (recorded : Recorded c points size)
    (documented : Documented points) (document : UInt32)
    (known : c.offset? = none → ∀ p ∈ points.head?, p.document = document) :
    ∃ bytes, encodePoints { c with document } points = .ok bytes := by
  induction recorded generalizing document with
  | stop c size => exact ⟨[], rfl⟩
  | move later named written next room ih => exact ih documented document known
  | @point c p points offset rest others size current canonical place written next room ih =>
    rcases documented p List.mem_cons_self with ⟨named, small⟩
    rcases place with ⟨front, hfront, -⟩
    rcases written with ⟨middle, hmiddle, -⟩
    rcases ih (fun q member => documented q (List.mem_cons_of_mem p member)) p.document (fun none => by cases none) with
      ⟨back, hback⟩
    have moved : ∃ bytes, encodeDocument { c with document } p = .ok bytes := by
      by_cases same : p.document = document
      · exact ⟨[], encodeDocument_same named same⟩
      · have later : ¬ c.offset?.isNone = true := fun none => same (known (by simpa using none) p rfl)
        rcases exists_compressed small with ⟨number, hnumber⟩
        unfold encodeDocument
        rw [if_neg (by simpa using named), if_neg (by simpa using same), if_neg later]
        exact ⟨_, bind_eq_ok.mpr ⟨[0], compressed_zero, bind_eq_ok.mpr ⟨number, hnumber, rfl⟩⟩⟩
    rcases moved with ⟨move, hmove⟩
    exact ⟨_, encodePoints_cons.mpr ⟨move, front, middle, back, hmove, hfront, hmiddle, hback, rfl⟩⟩

/-- The writer accepts points in the order of their offsets, with documents, and with lines unless they are hidden. -/
theorem valid_of_encodePoints {c : Context} {points : List SequencePoint} {bytes : Bytes} (h : encodePoints c points = .ok bytes) :
    points.Pairwise (fun p q => p.place < q.place) ∧ (∀ last, c.offset? = some last → ∀ p ∈ points, last < p.place) ∧
      ∀ p ∈ points, p.document ≠ 0 ∧ (p.isHidden = false → Extent p) := by
  induction points generalizing c bytes with
  | nil => simp
  | cons p points ih =>
    rcases encodePoints_cons.mp h with ⟨document, offset, rest, others, hdocument, hoffset, hrest, hothers, -⟩
    rcases ih hothers with ⟨ascending, behind, valid⟩
    have next := behind p.place rfl
    have named : p.document ≠ 0 := by
      intro zero
      unfold encodeDocument fault at hdocument
      rw [if_pos (by simpa using zero)] at hdocument
      cases hdocument
    have extent (visible : p.isHidden = false) : Extent p := by
      unfold encodeRest at hrest
      rw [if_neg (by rw [visible]; exact Bool.false_ne_true)] at hrest
      rcases bind_eq_ok.mp hrest with ⟨lines, hlines, -⟩
      exact (encodeExtent_eq_ok hlines).1
    refine ⟨.cons next ascending, fun last same q member => ?_, List.forall_mem_cons.mpr ⟨⟨named, extent⟩, valid⟩⟩
    have first : last < p.place := by
      unfold encodeOffset fault at hoffset
      simp only [same] at hoffset
      by_contra other
      rw [if_neg other] at hoffset
      cases hoffset
    rcases List.mem_cons.mp member with rfl | later
    · exact first
    · exact UInt32.lt_trans first (next q later)

end SequencePoints

end CilWeaver
