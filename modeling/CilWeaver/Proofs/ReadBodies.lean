import CilWeaver.Proofs.Answers
import CilWeaver.Proofs.Rereading

/-!
How the body of a method is read from the images: its code and clauses from the code stream, its points from the symbols.
-/

namespace CilWeaver

open Step

theorem Code.length_offsets_of_decode {literal : Nat → Result String} {bytes : Bytes} {body : DecodedBody}
    (h : decode literal bytes = .ok body) : body.code.length ≤ body.offsets.length := by
  unfold decode at h
  obtain ⟨items, -, h⟩ := Outcome.bind_eq_ok.mp h
  obtain ⟨code, found, h⟩ := Outcome.bind_eq_ok.mp h
  cases Outcome.pure_eq_ok.mp h
  have count := (Outcome.mapM_eq_ok.mp found).length_eq
  simp [count]

namespace SymbolImage

/-- A stored point and the point of the body that it is tied to. -/
structure Ties (symbols : SymbolImage) (decoded : DecodedBody) (stored : SequencePoint) (p : SourcePoint) : Prop where
  index : decoded.indexOf? stored.place.toNat = some p.place
  same : p = stored.map fun _ => p.place
  document : 1 ≤ p.document.toNat ∧ p.document.toNat ≤ symbols.documents.length

/-- Points that are read from a blob of the symbols. -/
structure ReadsPoints (symbols : SymbolImage) (decoded : DecodedBody) (points : BodySymbols) : Prop where
  stored : ∃ blob document, ∃ stored : SequencePoints, SequencePoints.parse blob document = .ok stored ∧
    points.localSignature = stored.localSignature ∧ List.Forall₂ (symbols.Ties decoded) stored.points points.points

variable {symbols : SymbolImage}

theorem ties_of_place {decoded : DecodedBody} {method : String} {stored : SequencePoint} {p : SourcePoint}
    (h : symbols.place decoded method stored = .ok p) : symbols.Ties decoded stored p := by
  unfold place at h
  obtain ⟨⟨⟩, document, h⟩ := Outcome.bind_eq_ok.mp h
  cases known : decoded.indexOf? stored.place.toNat with
  | none =>
    simp only [known] at h
    cases h
  | some index =>
    simp only [known] at h
    cases Outcome.pure_eq_ok.mp h
    refine ⟨known, rfl, ?_⟩
    unfold checkDocument at document
    by_cases bad : stored.document.toNat = 0 ∨ symbols.documents.length < stored.document.toNat
    · rw [if_pos bad] at document
      cases document
    · change 1 ≤ stored.document.toNat ∧ stored.document.toNat ≤ _
      omega

theorem readsPoints (position : Nat) (decoded? : Option DecodedBody) (method : String) :
    Outcome.Answers (symbols.bodySymbols position decoded? method) fun points? => ∀ points, points? = some points →
      ∃ decoded, decoded? = some decoded ∧ symbols.ReadsPoints decoded points := by
  unfold bodySymbols
  cases symbols.methods[position]? with
  | none => exact .pure fun points same => by cases same
  | some debug =>
    refine .ite (fun _ => .pure fun points same => by cases same) fun _ => ?_
    cases decoded? with
    | none => exact .error
    | some decoded =>
      dsimp only
      have answers : Outcome.Answers (do
            let stored ← SequencePoints.parse debug.points (.ofNat debug.document)
            let points ← stored.points.mapM (symbols.place decoded method)
            return some (⟨stored.localSignature, points⟩ : BodySymbols)) fun points? =>
          ∀ points, points? = some points → ∃ found, some decoded = some found ∧ symbols.ReadsPoints found points := by
        intro points? h own same
        obtain ⟨stored, parsed, h⟩ := Outcome.bind_eq_ok.mp h
        obtain ⟨points, tied, last⟩ := Outcome.bind_eq_ok.mp h
        cases Outcome.pure_eq_ok.mp last
        cases same
        exact ⟨decoded, rfl, _, _, stored, parsed, rfl, (Outcome.mapM_eq_ok.mp tied).imp fun _ _ found => ties_of_place found⟩
      exact .ite (fun _ => .bind fun _ => answers) fun _ => answers

end SymbolImage

namespace ModuleImage

variable {image : ModuleImage} {points? : Option SymbolImage} {maxBodySize : Nat}

/-- How a body is read from the code of an image, with points of the symbols. -/
structure ReadsBody (image : ModuleImage) (points? : Option SymbolImage) (maxBodySize : Nat) (method : String)
    (b : MethodBody) (decoded : DecodedBody) : Prop where
  bytes : ∃ raw : RawBody, raw.code.length ≤ maxBodySize ∧ Code.decode image.literal raw.code = .ok decoded ∧
    raw.clauses.mapM (Region.ofClause image.contains decoded method) = .ok b.regions
  code : b.code = decoded.code
  operands : image.checkOperands method decoded = .ok ()
  locals : image.locals method b.localSignature = .ok b.locals
  points : ∀ symbols, b.symbols? = some symbols →
    ∃ stored, points? = some stored ∧ stored.ReadsPoints decoded symbols

theorem readsBody_of_body (method : String) (address : UInt32) :
    Outcome.Answers (image.body maxBodySize method address) fun found =>
      image.ReadsBody points? maxBodySize method found.1 found.2 := by
  unfold ModuleImage.body
  refine .check (.bind fun raw => ?_)
  by_cases long : maxBodySize < raw.code.length
  · rw [if_pos long]
    exact .error
  · rw [if_neg long]
    intro found h
    obtain ⟨decoded, decode, h⟩ := Outcome.bind_eq_ok.mp h
    obtain ⟨⟨⟩, operands, h⟩ := Outcome.bind_eq_ok.mp h
    obtain ⟨types, locals, h⟩ := Outcome.bind_eq_ok.mp h
    obtain ⟨regions, clauses, last⟩ := Outcome.bind_eq_ok.mp h
    cases Outcome.pure_eq_ok.mp last
    exact ⟨⟨raw.toRawBody, Nat.le_of_not_lt long, inMethod_eq_ok.mp decode, clauses⟩, rfl, operands, locals,
      fun symbols same => by cases same⟩

theorem readsBody (position : Nat) (method : String) (address : UInt32) :
    Outcome.Answers (image.bodyWithSymbols points? maxBodySize position method address) fun body? =>
      ∀ b, body? = some b → ∃ decoded, image.ReadsBody points? maxBodySize method b decoded := by
  intro body? h b shape
  rw [bodyWithSymbols_eq] at h
  obtain ⟨found?, bodies, h⟩ := Outcome.bind_eq_ok.mp h
  obtain ⟨own?, told, h⟩ := Outcome.bind_eq_ok.mp h
  cases h
  obtain ⟨found, same, rfl⟩ := Option.map_eq_some_iff.mp shape
  subst same
  have read : image.body maxBodySize method address = .ok found := by
    by_cases none : (address == 0) = true
    · rw [if_pos none] at bodies
      cases bodies
    · rw [if_neg none] at bodies
      obtain ⟨other, read, same⟩ := Outcome.map_eq_ok.mp bodies
      cases same
      exact read
  obtain ⟨bytes, code, operands, locals, -⟩ := @readsBody_of_body image none maxBodySize method address found read
  refine ⟨found.2, bytes, code, operands, locals, fun symbols present => ?_⟩
  change own? = some symbols at present
  subst present
  cases points? with
  | none => cases told
  | some stored =>
    obtain ⟨decoded, same, reads⟩ := SymbolImage.readsPoints position (some found.2) method _ told symbols rfl
    cases same
    exact ⟨stored, rfl, reads⟩

end ModuleImage

end CilWeaver
