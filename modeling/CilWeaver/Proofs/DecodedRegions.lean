import CilWeaver.Proofs.Bodies
import CilWeaver.Proofs.DecodedCode

/-!
The regions of decoded code. A clause that is read names positions of the body, and the clause of its region is the clause
that was read, but for the argument of a kind that has none. A region that passes the check of a body is what its clause is
read as.
-/

namespace CilWeaver

namespace Region

open Code Step

/-- The bounds of the region are positions of a body of `count`, and neither range ends before it starts. -/
structure Bounded (count : Nat) (r : Region) : Prop where
  tried : r.tryStart < count ∧ r.tryStart ≤ r.tryEnd ∧ r.tryEnd ≤ count
  handled : r.handlerStart < count ∧ r.handlerStart ≤ r.handlerEnd ∧ r.handlerEnd ≤ count
  filter : ∀ start, r.kind = .filter start → start < count

section

variable {body : DecodedBody} {method : String}

theorem startOf_eq_ok {offset : UInt32} {index : Nat} (h : startOf body method offset = .ok index) :
    index < body.code.length ∧ body.offsets[index]? = some offset.toNat := by
  unfold startOf at h
  cases found : body.indexOf? offset.toNat with
  | none =>
    simp only [found] at h
    cases h
  | some place =>
    simp only [found] at h
    cases h
    exact DecodedBody.indexOf?_eq_some found

theorem endOf_eq_ok {offset length : UInt32} {index : Nat} (h : endOf body method offset length = .ok index) :
    body.offsets[index]? = some (offset.toNat + length.toNat) := by
  unfold endOf at h
  cases found : body.boundaryOf? (offset.toNat + length.toNat) with
  | none =>
    simp only [found] at h
    cases h
  | some place =>
    simp only [found] at h
    cases h
    exact DecodedBody.boundaryOf?_eq_some found

/-- A range that is found in a body. -/
theorem range_eq_ok (laid : body.offsets = offsets body.code) {offset length : UInt32} {first last : Nat}
    (start : startOf body method offset = .ok first) (stop : endOf body method offset length = .ok last) :
    first < body.code.length ∧ first ≤ last ∧ last ≤ body.code.length := by
  obtain ⟨inside, place⟩ := startOf_eq_ok start
  have boundary := endOf_eq_ok stop
  rw [laid] at place boundary
  obtain ⟨bound, same⟩ := List.getElem?_eq_some_iff.mp boundary
  obtain ⟨bound', same'⟩ := List.getElem?_eq_some_iff.mp place
  have count : last < body.code.length + 1 := by rwa [length_offsets] at bound
  refine ⟨inside, ?_, Nat.le_of_lt_succ count⟩
  by_contra before
  have less := List.pairwise_iff_getElem.mp (pairwise_offsetsFrom 0 body.code) last first bound bound' (by omega)
  change (offsets body.code)[last] < (offsets body.code)[first] at less
  omega

theorem bounded_of_ofClause (laid : body.offsets = offsets body.code) (contains : Token → Bool) (c : Clause) :
    Outcome.Answers (ofClause contains body method c) fun r =>
      Bounded body.code.length r ∧ Catchable contains r := by
  intro r h
  obtain ⟨marks, tried, handled⟩ := ofClause_eq_ok.mp h
  refine ⟨⟨range_eq_ok laid tried.1 tried.2, range_eq_ok laid handled.1 handled.2, fun start same => ?_⟩,
    catchable_of_ofClause h⟩
  rw [same] at marks
  exact (startOf_eq_ok marks.2).1

/-- The offset of a start is the one that the start was found for. -/
theorem offset_of_startOf {offset : UInt32} {index : Nat} (start : startOf body method offset = .ok index) :
    UInt32.ofNat (body.offsets.toArray[index]?.getD 0) = offset := by
  rw [List.getElem?_toArray, (startOf_eq_ok start).2, Option.getD_some, UInt32.ofNat_toNat]

theorem length_of_range {offset length : UInt32} {first last : Nat} (start : startOf body method offset = .ok first)
    (stop : endOf body method offset length = .ok last) :
    UInt32.ofNat (body.offsets.toArray[last]?.getD 0 - body.offsets.toArray[first]?.getD 0) = length := by
  rw [List.getElem?_toArray, List.getElem?_toArray, (startOf_eq_ok start).2, endOf_eq_ok stop, Option.getD_some,
    Option.getD_some, Nat.add_sub_cancel_left, UInt32.ofNat_toNat]

/-- The clause of the region of a clause: what is stored for a kind without an argument is lost. -/
theorem toClause_ofClause {contains : Token → Bool} {c : Clause} {r : Region}
    (accepted : ofClause contains body method c = .ok r) :
    toClause body.offsets.toArray r =
      { c with argument := if c.flags.cleanup || c.flags.fault then 0 else c.argument } := by
  obtain ⟨marks, ⟨tryFirst, tryLast⟩, handlerFirst, handlerLast⟩ := ofClause_eq_ok.mp accepted
  unfold toClause
  dsimp only
  rw [offset_of_startOf tryFirst, length_of_range tryFirst tryLast, offset_of_startOf handlerFirst,
    length_of_range handlerFirst handlerLast]
  cases kind : r.kind with
  | catches type =>
    rw [kind] at marks
    obtain ⟨flags, argument, -⟩ := marks
    simp only [flags, argument, Bool.or_self, Bool.false_eq_true, ↓reduceIte]
  | filter start =>
    rw [kind] at marks
    obtain ⟨flags, found⟩ := marks
    simp only [flags, offset_of_startOf found, Bool.or_self, Bool.false_eq_true, ↓reduceIte]
  | cleanup =>
    rw [kind] at marks
    simp only [show c.flags = { cleanup := true } from marks, Bool.or_false, ↓reduceIte]
  | fault =>
    rw [kind] at marks
    simp only [show c.flags = { fault := true } from marks, Bool.or_true, ↓reduceIte]

end

/-- Regions of decoded code and their clauses convert into each other. The offsets of stored code are numbers of 32 bits.
    A clause that is read names positions of the body and is given back, with no argument if its kind has none; a region
    that passes the check of a body, and whose type can be caught, is what its clause is read as. -/
theorem clauses_inverse {literal : Nat → Result String} {bytes : Bytes} {body : DecodedBody}
    (decoded : decode literal bytes = .ok body) (fits : ∀ offset ∈ body.offsets, offset < 2 ^ 32)
    (contains : Token → Bool) (method : String) :
    (∀ c r, ofClause contains body method c = .ok r → Bounded body.code.length r ∧
      toClause body.offsets.toArray r =
        { c with argument := if c.flags.cleanup || c.flags.fault then 0 else c.argument }) ∧
    ∀ (b : MethodBody) (documents : Nat), b.length = body.code.length → b.checkIndices documents = .ok () →
      ∀ r ∈ b.regions, Catchable contains r →
        ofClause contains body method (toClause body.offsets.toArray r) = .ok r := by
  have laid := (laid_of_decode decoded).offsets
  refine ⟨fun c r accepted => ⟨(bounded_of_ofClause laid contains c r accepted).1, toClause_ofClause accepted⟩,
    fun b documents count checked r member catchable => ?_⟩
  have inside : Inside body.code.length r := count ▸ (MethodBody.checkIndices_eq_ok.mp checked).regions r member
  obtain ⟨code, places⟩ := body
  obtain rfl : places = offsets code := laid
  -- the size of the code is the last offset
  have small : codeSize code < 2 ^ 32 := by
    have last := getElem?_offsets code (Nat.le_refl code.length)
    rw [List.take_length] at last
    exact fits _ (List.mem_of_getElem? last)
  exact (ofClause_toClause small inside contains method r).mpr ⟨rfl, catchable⟩

/-- A jump out of protected code over its handler. -/
theorem clauses_inverse_sample :
    ∃ body, decode (fun _ => .ok "a") [0x00, 0xDE, 0x02, 0x00, 0xDC, 0x16, 0x2A] = .ok body ∧
      body.offsets = [0, 1, 3, 4, 5, 6, 7] ∧
      toClause body.offsets.toArray ⟨.cleanup, 0, 2, 2, 4⟩ = ⟨{ cleanup := true }, 0, 3, 3, 2, 0⟩ ∧
      ofClause (· == ⟨0x01000001⟩) body "m" (toClause body.offsets.toArray ⟨.catches ⟨0x01000001⟩, 0, 2, 2, 5⟩) =
        .ok ⟨.catches ⟨0x01000001⟩, 0, 2, 2, 5⟩ := by
  have found : ∃ body, decode (fun _ => .ok "a") [0x00, 0xDE, 0x02, 0x00, 0xDC, 0x16, 0x2A] = .ok body ∧
      decide (body.code.length = 6 ∧ body.offsets = [0, 1, 3, 4, 5, 6, 7] ∧
        ofClause (· == ⟨0x01000001⟩) body "m" ⟨{ cleanup := true }, 0, 3, 3, 2, 9⟩ = .ok ⟨.cleanup, 0, 2, 2, 4⟩) = true :=
    Outcome.exists_of_any (by decide +kernel)
  obtain ⟨body, decoded, holds⟩ := found
  obtain ⟨count, places, accepted⟩ := of_decide_eq_true holds
  obtain ⟨given, back⟩ := clauses_inverse decoded (by rw [places]; decide) (· == ⟨0x01000001⟩) "m"
  refine ⟨body, decoded, places, (given _ _ accepted).2, ?_⟩
  refine back { code := body.code, regions := [⟨.catches ⟨0x01000001⟩, 0, 2, 2, 5⟩] } 0 rfl ?_ _ List.mem_cons_self ?_
  · rw [MethodBody.checkIndices, MethodBody.length, count]
    rfl
  · rintro type ⟨⟩
    decide

end Region

end CilWeaver
