import CilWeaver.Proofs.PointRecords
import CilWeaver.Proofs.WritableImages

/-!
How writing a module fails. Either the failure names an element of the module and tells the fault found there, or it is
a defect: then the module exceeds a limit of the format, which is known from the module alone. Such defects are the same
ones that a reader finds in data.
-/

namespace CilWeaver

open Outcome

section

variable {reason : Error → Prop}

theorem compressed_fails {n : Nat} (large : 2 ^ 29 ≤ n → reason (.malformed (.compressedTooLarge n))) :
    FailsWith reason (compressed n) := by
  by_cases beyond : 2 ^ 29 ≤ n
  · rw [compressed_of_le beyond]
    exact .error (large beyond)
  · obtain ⟨bytes, written⟩ := exists_compressed (Nat.lt_of_not_le beyond)
    rw [written]
    exact .ok bytes

theorem compressedInt_fails {n : Int}
    (beyond : ¬ (-2 ^ 28 ≤ n ∧ n < 2 ^ 28) → reason (.malformed (.compressedOutOfRange n))) :
    FailsWith reason (compressedInt n) := by
  by_cases inside : -2 ^ 28 ≤ n ∧ n < 2 ^ 28
  · obtain ⟨bytes, written⟩ := exists_compressedInt inside
    rw [written]
    exact .ok bytes
  · rw [compressedInt_of_outside inside]
    exact .error (beyond inside)

end

namespace SequencePoints

/-- Why points have no stored form: one of them is refused, or a number of them has no compressed form. -/
inductive Fault (s : SequencePoints) : Error → Prop
  | refused (fault : EmissionFault) : Fault s (.emission emissionContext fault)
  | localSignature : 2 ^ 29 ≤ s.localSignature.toNat → Fault s (.malformed (.compressedTooLarge s.localSignature.toNat))
  | document {p : SequencePoint} : p ∈ s.points → 2 ^ 29 ≤ p.document.toNat →
      Fault s (.malformed (.compressedTooLarge p.document.toNat))
  | offset {p : SequencePoint} {n : Nat} : p ∈ s.points → 2 ^ 29 ≤ n → n ≤ p.place.toNat →
      Fault s (.malformed (.compressedTooLarge n))
  | line {p q : SequencePoint} {step : Int} : p ∈ s.points → q ∈ s.points →
      step = p.startLine.toNat - q.startLine.toNat → ¬ (-2 ^ 28 ≤ step ∧ step < 2 ^ 28) →
      Fault s (.malformed (.compressedOutOfRange step))

variable {s : SequencePoints} {p : SequencePoint} {c : Context}

theorem encodeDocument_fails (member : p ∈ s.points) : FailsWith s.Fault (encodeDocument c p) := by
  unfold encodeDocument
  refine .ite (.error (.refused _)) (.ite (.ok []) (.ite (.error (.refused _)) ?_))
  refine FailsWith.bind (compressed_fails fun large => absurd large (by decide)) fun zero => ?_
  exact FailsWith.bind (compressed_fails (.document member)) fun number => .pure _

theorem encodeOffset_fails (member : p ∈ s.points) : FailsWith s.Fault (encodeOffset c p) := by
  unfold encodeOffset
  cases c.offset? with
  | none => exact compressed_fails fun large => .offset member large (Nat.le_refl _)
  | some last => exact .ite (compressed_fails fun large => .offset member large (Nat.sub_le _ _)) (.error (.refused _))

/-- The lines of a point are few enough, and its columns too, once they are checked. -/
theorem encodeExtent_fails (s : SequencePoints) (p : SequencePoint) : FailsWith s.Fault (encodeExtent p) := by
  have startColumn := p.startColumn.toNat_lt
  have endColumn := p.endColumn.toNat_lt
  unfold encodeExtent
  dsimp only
  split
  · exact .error (.refused _)
  · rename_i lines
    have few : p.endLine.toNat - p.startLine.toNat < 2 ^ 29 := by
      rw [Bool.or_eq_true, not_or, decide_eq_true_eq] at lines
      have most : PointAt.maxLine < 2 ^ 29 := by decide
      omega
    split
    · exact .error (.refused _)
    · refine FailsWith.bind (compressed_fails fun large => absurd large (Nat.not_le.mpr few)) fun first => .ite ?_ ?_
      · exact FailsWith.bind (compressed_fails fun large => absurd large (by omega)) fun second => .pure _
      · exact FailsWith.bind (compressedInt_fails fun beyond => absurd beyond (by omega)) fun second => .pure _

theorem encodeStart_fails (member : p ∈ s.points) (extent : Extent p)
    (known : ∀ start, c.start? = some start → ∃ q ∈ s.points, q.startLine = start.1) :
    FailsWith s.Fault (encodeStart c p) := by
  have startColumn := p.startColumn.toNat_lt
  have most : PointAt.maxLine < 2 ^ 29 := by decide
  have order := extent.order
  have stop := extent.stop
  unfold encodeStart
  cases shape : c.start? with
  | none =>
    refine FailsWith.bind (compressed_fails fun large => absurd large (by omega)) fun line => ?_
    exact FailsWith.bind (compressed_fails fun large => absurd large (by omega)) fun column => .pure _
  | some start =>
    -- the distance is one to the line of an earlier point, which nothing bounds
    obtain ⟨q, earlier, same⟩ := known start shape
    have column := start.2.toNat_lt
    refine FailsWith.bind (compressedInt_fails fun beyond => .line member earlier ?_ beyond) fun line => ?_
    · rw [same]
    · exact FailsWith.bind (compressedInt_fails fun beyond => absurd beyond (by omega)) fun column => .pure _

theorem encodeRest_fails (member : p ∈ s.points)
    (known : ∀ start, c.start? = some start → ∃ q ∈ s.points, q.startLine = start.1) :
    FailsWith s.Fault (encodeRest c p) := by
  unfold encodeRest
  refine .ite (.ok _) ((encodeExtent_fails s p).bind_of fun extent written => ?_)
  exact (encodeStart_fails member (encodeExtent_eq_ok written).1 known).bind fun start => .pure _

theorem known_after (member : p ∈ s.points)
    (known : ∀ start, c.start? = some start → ∃ q ∈ s.points, q.startLine = start.1) :
    ∀ start, (c.after p).start? = some start → ∃ q ∈ s.points, q.startLine = start.1 := by
  intro start found
  unfold Context.after at found
  dsimp only at found
  split at found
  · exact known start found
  · cases found
    exact ⟨p, member, rfl⟩

theorem encodePoints_fails {points : List SequencePoint} (own : points ⊆ s.points)
    (known : ∀ start, c.start? = some start → ∃ q ∈ s.points, q.startLine = start.1) :
    FailsWith s.Fault (encodePoints c points) := by
  induction points generalizing c with
  | nil => exact .ok []
  | cons p points ih =>
    rw [List.cons_subset] at own
    obtain ⟨member, others⟩ := own
    have record : FailsWith s.Fault (encodePoint c p) := by
      rw [encodePoint_eq]
      exact (encodeDocument_fails member).bind fun document => (encodeOffset_fails member).bind fun offset =>
        (encodeRest_fails member known).bind fun rest => .pure _
    unfold encodePoints
    refine record.bind_of fun written run => ?_
    obtain ⟨record, next⟩ := written
    obtain ⟨rfl, -⟩ := encodePoint_eq_ok run
    exact (ih others (known_after member known)).bind fun back => .pure _

theorem encode_fails (s : SequencePoints) (document : UInt32) : FailsWith s.Fault (s.encode document) := by
  have points (document : UInt32) : FailsWith s.Fault (encodePoints { document } s.points) :=
    encodePoints_fails (List.Subset.refl _) fun start none => by cases none
  unfold encode
  refine FailsWith.bind (compressed_fails .localSignature) fun localSignature =>
    .ite ?_ ((points document).bind fun back => .pure _)
  cases shape : s.points with
  | nil => exact .error (.refused _)
  | cons p others =>
    have member : p ∈ s.points := by
      rw [shape]
      exact List.mem_cons_self
    rw [shape] at points
    exact FailsWith.bind (compressed_fails (.document member)) fun first => (points p.document).bind fun back => .pure _

end SequencePoints

namespace MethodBody

open Code

/-- Which number of the points of a body has no compressed form, with the defect that tells of it: the distance between
    the first lines of two points, the row of a signature or of a document, or an offset in the code. -/
inductive PointOverflow (b : MethodBody) : Defect → Prop
  | line {symbols : BodySymbols} {p q : SourcePoint} {step : Int} : b.symbols? = some symbols → p ∈ symbols.points →
      q ∈ symbols.points → step = p.startLine.toNat - q.startLine.toNat → ¬ (-2 ^ 28 ≤ step ∧ step < 2 ^ 28) →
      PointOverflow b (.compressedOutOfRange step)
  | localSignature {symbols : BodySymbols} : b.symbols? = some symbols → 2 ^ 29 ≤ symbols.localSignature.toNat →
      PointOverflow b (.compressedTooLarge symbols.localSignature.toNat)
  | document {symbols : BodySymbols} {p : SourcePoint} : b.symbols? = some symbols → p ∈ symbols.points →
      2 ^ 29 ≤ p.document.toNat → PointOverflow b (.compressedTooLarge p.document.toNat)
  | offset {n : Nat} : 2 ^ 29 ≤ n → n ≤ codeSize (promote b.code) → PointOverflow b (.compressedTooLarge n)

/-- A stored point is a point of the body whose place lies within the code. -/
theorem exists_source {b : MethodBody} {symbols : BodySymbols} {p : SequencePoint}
    (member : p ∈ (SymbolWriter.storedPoints (offsets (promote b.code)) symbols).points) :
    ∃ q ∈ symbols.points, p.document = q.document ∧ p.startLine = q.startLine ∧
      p.place.toNat ≤ codeSize (promote b.code) := by
  obtain ⟨q, own, rfl⟩ := List.mem_map.mp member
  refine ⟨q, own, rfl, rfl, ?_⟩
  change (UInt32.ofNat ((offsets (promote b.code)).toArray[q.place]?.getD 0)).toNat ≤ codeSize (promote b.code)
  rw [UInt32.toNat_ofNat']
  refine Nat.le_trans (Nat.mod_le _ _) ?_
  rw [List.getElem?_toArray]
  cases found : (offsets (promote b.code))[q.place]? with
  | none => exact Nat.zero_le _
  | some offset => exact le_codeSize_of_mem (List.mem_of_getElem? found)

/-- The points of a body are refused, or a number of them is. -/
theorem encodedPoints_fails (b : MethodBody) :
    FailsWith (fun e => (∃ fault, e = .emission SequencePoints.emissionContext fault) ∨
      ∃ defect, e = .malformed defect ∧ b.PointOverflow defect) b.encodedPoints := by
  unfold encodedPoints
  cases shape : b.symbols? with
  | none => exact .ok []
  | some symbols =>
    refine .ite (.ok []) ?_
    intro e failed
    cases SequencePoints.encode_fails _ _ e failed with
    | refused fault => exact .inl ⟨fault, rfl⟩
    | localSignature large => exact .inr ⟨_, rfl, .localSignature shape large⟩
    | document member large =>
      obtain ⟨q, own, same, -⟩ := exists_source member
      rw [same] at large ⊢
      exact .inr ⟨_, rfl, .document shape own large⟩
    | offset member large most =>
      obtain ⟨-, -, -, -, within⟩ := exists_source member
      exact .inr ⟨_, rfl, .offset large (Nat.le_trans most within)⟩
    | line first second step beyond =>
      obtain ⟨p, own, -, same, -⟩ := exists_source first
      obtain ⟨q, earlier, -, same', -⟩ := exists_source second
      rw [same, same'] at step
      exact .inr ⟨_, rfl, .line shape own earlier step beyond⟩

end MethodBody

namespace Module

variable {m : Module} {digest : Bytes → ImageId}

/-- The faults that a failure names, each with the text of the element it is found at. -/
inductive Blamed (m : Module) : (context : String) → EmissionFault → Prop
  | element {context : String} {fault : EmissionFault} : m.Refused context fault → Blamed m context fault
  | points {t : TypeDef} {d : MethodDef} {b : MethodBody} {fault : EmissionFault} : m.symbols?.isSome = true →
      (t, d) ∈ m.methodList → d.body? = some b →
      b.encodedPoints = .error (.emission SequencePoints.emissionContext fault) → Blamed m (t.methodText d.name) fault

/-- The limits that a module exceeds, in a part or as a whole, each with the defect that tells of it. -/
inductive Exceeded (m : Module) : Defect → Prop
  | space {defect : Defect} : m.Overflow defect → Exceeded m defect
  | points {t : TypeDef} {d : MethodDef} {b : MethodBody} {defect : Defect} : m.symbols?.isSome = true →
      (t, d) ∈ m.methodList → d.body? = some b → b.PointOverflow defect → Exceeded m defect

/-- Writing a module fails with the name of an element that has a fault, or with a defect. A defect does not name an
    element, and is the kind of failure that broken data leads to; the module then exceeds the limit of the defect. -/
theorem emit_error_cases {e : Error} (failed : m.emit digest = .error e) :
    (∃ context fault, e = .emission context fault ∧ m.Blamed context fault) ∨
      ∃ defect, e = .malformed defect ∧ m.Exceeded defect := by
  have fails : FailsWith (fun e => (∃ context fault, e = .emission context fault ∧ m.Blamed context fault) ∨
      ∃ defect, e = .malformed defect ∧ m.Exceeded defect) (m.emit digest) := by
    refine emit_fails (fun refused => .inl ⟨_, _, rfl, .element refused⟩) (fun present t d b e member own failed => ?_)
      (fun overflow => .inr ⟨_, rfl, .space overflow⟩) digest
    obtain ⟨fault, rfl⟩ | ⟨defect, rfl, overflow⟩ := b.encodedPoints_fails e failed
    · exact .inl ⟨_, fault, rfl, .points present member own failed⟩
    · exact .inr ⟨defect, rfl, .points present member own overflow⟩
  exact fails e failed

end Module

namespace Sample

/-- A reference in an assembly that the module does not name. -/
def unscoped : Module where
  name := "a"
  typeRefs := [{ scope := .ofRow .assemblyRef 1, namespaceName := "", name := "Base" }]

/-- A name that the heap would end too early. -/
def nulNamed : Module where
  name := "a\x00b"

/-- A version without room in the root. -/
def overlong : Module where
  name := "a"
  runtimeVersion := "".pushn 'v' 255

/-- Two points whose lines are further apart than a compressed distance. -/
def distant : Module where
  name := "a"
  types :=
    [{ flags := 0, namespaceName := "", name := "T", baseType := .null, fields := []
       methods :=
        [{ flags := 0x10, implFlags := 0, name := "F", signature := [0, 0, 1], params := []
           body? := some
            { code := [.nop, .ret]
              symbols? := some ⟨0, [⟨0, 1, 1, 1, 1, 2⟩, ⟨1, 1, 0x10000001, 1, 0x10000001, 2⟩]⟩ } }] }]
  documents := [⟨"a.cs", .nil, [], .nil⟩]
  symbols? := some ⟨"a.pdb", 1⟩

end Sample

theorem Module.emit_error_cases_sample : ∃ fault,
    Sample.unscoped.emit (fun _ => .zero) = .error (.emission "TypeRef 1" fault) ∧
    Sample.unscoped.Blamed "TypeRef 1" fault := by
  have failed : Sample.unscoped.emit (fun _ => .zero) =
      .error (.emission "TypeRef 1" (.danglingToken .scope (.ofRow .assemblyRef 1))) := by decide +kernel
  obtain ⟨context, fault, same, blamed⟩ | ⟨defect, same, -⟩ := emit_error_cases failed
  · cases same
    exact ⟨_, failed, blamed⟩
  · cases same

/-- What a heap, the root or a compressed number has no form for is told as a defect, as if the module came from broken
    data. -/
theorem Module.emit_blames_data :
    Sample.nulNamed.emit (fun _ => .zero) = .error (.malformed (.nulInIdentifier "a\x00b")) ∧
    Sample.overlong.emit (fun _ => .zero) = .error (.malformed (.versionTooLong ("".pushn 'v' 255))) ∧
    Sample.distant.emit (fun _ => .zero) = .error (.malformed (.compressedOutOfRange 0x10000000)) ∧
    ¬ ∀ (m : Module) (digest : Bytes → ImageId) (e : Error), m.emit digest = .error e →
      ∃ context fault, e = .emission context fault := by
  have named : Sample.nulNamed.emit (fun _ => .zero) = .error (.malformed (.nulInIdentifier "a\x00b")) := by
    decide +kernel
  refine ⟨named, by decide +kernel, by decide +kernel, fun closed => ?_⟩
  obtain ⟨context, fault, same⟩ := closed _ _ _ named
  cases same

end CilWeaver
