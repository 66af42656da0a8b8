import CilWeaver.Proofs.Decoding
import CilWeaver.Proofs.RawBodies

/-!
The clause of a region names the region again. The type of a catch clause is the only part of it that
a reader may refuse.
-/

namespace CilWeaver

namespace Region

open Code

/-- Both ranges of the region hold an instruction and lie in a body of `count`. -/
structure Inside (count : Nat) (r : Region) : Prop where
  tried : r.tryStart < r.tryEnd ∧ r.tryEnd ≤ count
  handled : r.handlerStart < r.handlerEnd ∧ r.handlerEnd ≤ count
  filter : ∀ start, r.kind = .filter start → start < count

theorem inside_of_check {count number : Nat} {r : Region}
    (h : MethodBody.checkRegion count number r = .ok ()) : Inside count r := by
  unfold MethodBody.checkRegion at h
  simp only [Bool.or_eq_true, decide_eq_true_eq] at h
  split at h
  · cases h
  · rename_i tried
    split at h
    · cases h
    · rename_i handled
      refine ⟨by omega, by omega, fun start kind => ?_⟩
      rw [kind] at h
      simp only at h
      split at h
      · cases h
      · omega

theorem check_of_inside {count number : Nat} {r : Region} (inside : Inside count r) :
    MethodBody.checkRegion count number r = .ok () := by
  obtain ⟨tried, handled, filter⟩ := inside
  unfold MethodBody.checkRegion
  simp only [Bool.or_eq_true, decide_eq_true_eq]
  rw [if_neg (by omega), if_neg (by omega)]
  split
  · rename_i start kind
    have := filter start kind
    rw [if_neg (by omega)]
  · rfl

theorem hasKind_toClause (table : Array Nat) (r : Region) : (toClause table r).HasKind := by
  unfold toClause Clause.HasKind
  cases r.kind <;> rfl

/-- A catch clause that a reader accepts has a type of the image. -/
def Catchable (contains : Token → Bool) (r : Region) : Prop :=
  ∀ type, r.kind = .catches type → (catchTables.any type.isIn && contains type) = true

theorem table_offset (code : List Instruction) {index : Nat} (bound : index ≤ code.length) :
    (offsets code).toArray[index]?.getD 0 = codeSize (code.take index) := by
  rw [List.getElem?_toArray, getElem?_offsets code bound]
  rfl

theorem toNat_offset {code : List Instruction} (small : codeSize code < 2 ^ 32) (index : Nat) :
    (UInt32.ofNat (codeSize (code.take index))).toNat = codeSize (code.take index) := by
  have := codeSize_take_le code index
  rw [UInt32.toNat_ofNat', Nat.mod_eq_of_lt (by omega)]

theorem codeSize_take_mono (code : List Instruction) {i j : Nat} (h : i ≤ j) :
    codeSize (code.take i) ≤ codeSize (code.take j) := by
  have bound := codeSize_take_le (code.take j) i
  rw [List.take_take, Nat.min_eq_left h] at bound
  exact bound

theorem startOf_offset {code : List Instruction} (small : codeSize code < 2 ^ 32) {index : Nat}
    (bound : index < code.length) (method : String) :
    startOf ⟨code, offsets code⟩ method (.ofNat ((offsets code).toArray[index]?.getD 0)) = .ok index := by
  rw [startOf, table_offset code (Nat.le_of_lt bound), toNat_offset small, indexOf?_offsets code bound]

theorem endOf_offset {code : List Instruction} (small : codeSize code < 2 ^ 32) {first last : Nat}
    (order : first ≤ last) (bound : last ≤ code.length) (method : String) :
    endOf ⟨code, offsets code⟩ method (.ofNat ((offsets code).toArray[first]?.getD 0))
      (.ofNat ((offsets code).toArray[last]?.getD 0 - (offsets code).toArray[first]?.getD 0)) = .ok last := by
  have mono := codeSize_take_mono code order
  have within := codeSize_take_le code last
  have length : (UInt32.ofNat (codeSize (code.take last) - codeSize (code.take first))).toNat =
      codeSize (code.take last) - codeSize (code.take first) := by
    rw [UInt32.toNat_ofNat', Nat.mod_eq_of_lt (by omega)]
  rw [endOf, table_offset code bound, table_offset code (Nat.le_trans order bound), toNat_offset small, length,
    Nat.add_sub_cancel' mono, boundaryOf?_offsets code bound]

section

variable {contains : Token → Bool} {body : DecodedBody} {method : String} {c : Clause}

/-- The clause has the flags of the kind, and the argument that goes with it. -/
def Marks (contains : Token → Bool) (body : DecodedBody) (method : String) (c : Clause) : RegionKind → Prop
  | .catches type => c.flags = {} ∧ c.argument = type.value ∧ (catchTables.any type.isIn && contains type) = true
  | .filter start => c.flags = { filter := true } ∧ startOf body method c.argument = .ok start
  | .cleanup => c.flags = { cleanup := true }
  | .fault => c.flags = { fault := true }

theorem kindOf_of_marks {kind : RegionKind} (marks : Marks contains body method c kind) :
    kindOf contains body method c = .ok kind := by
  unfold kindOf
  cases kind with
  | catches type =>
    obtain ⟨flags, argument, accepted⟩ := marks
    simp only [flags, argument, accepted, ↓reduceIte]
  | filter start =>
    obtain ⟨flags, found⟩ := marks
    simp only [flags, found]
    rfl
  | cleanup => simp only [show c.flags = { cleanup := true } from marks]
  | fault => simp only [show c.flags = { fault := true } from marks]

theorem marks_of_kindOf {kind : RegionKind} (h : kindOf contains body method c = .ok kind) :
    Marks contains body method c kind := by
  unfold kindOf at h
  split at h
  · rename_i flags
    dsimp only at h
    split at h
    · rename_i accepted
      cases h
      exact ⟨flags, rfl, accepted⟩
    · cases h
  · rename_i flags
    obtain ⟨start, found, last⟩ := Outcome.bind_eq_ok.mp h
    cases Outcome.pure_eq_ok.mp last
    exact ⟨flags, found⟩
  · rename_i flags
    cases h
    exact flags
  · rename_i flags
    cases h
    exact flags
  · cases h

theorem kindOf_eq_ok {kind : RegionKind} :
    kindOf contains body method c = .ok kind ↔ Marks contains body method c kind :=
  ⟨marks_of_kindOf, kindOf_of_marks⟩

/-- The region of a clause: its kind, and where its bounds are found in the body. -/
theorem ofClause_eq_ok {r : Region} :
    ofClause contains body method c = .ok r ↔ Marks contains body method c r.kind ∧
      (startOf body method c.tryOffset = .ok r.tryStart ∧ endOf body method c.tryOffset c.tryLength = .ok r.tryEnd) ∧
      startOf body method c.handlerOffset = .ok r.handlerStart ∧
      endOf body method c.handlerOffset c.handlerLength = .ok r.handlerEnd := by
  unfold ofClause
  constructor
  · intro h
    obtain ⟨kind, kinds, h⟩ := Outcome.bind_eq_ok.mp h
    obtain ⟨tryStart, tryFirst, h⟩ := Outcome.bind_eq_ok.mp h
    obtain ⟨tryEnd, tryLast, h⟩ := Outcome.bind_eq_ok.mp h
    obtain ⟨handlerStart, handlerFirst, h⟩ := Outcome.bind_eq_ok.mp h
    obtain ⟨handlerEnd, handlerLast, h⟩ := Outcome.bind_eq_ok.mp h
    cases Outcome.pure_eq_ok.mp h
    exact ⟨kindOf_eq_ok.mp kinds, ⟨tryFirst, tryLast⟩, handlerFirst, handlerLast⟩
  · rintro ⟨marks, ⟨tryFirst, tryLast⟩, handlerFirst, handlerLast⟩
    rw [kindOf_eq_ok.mpr marks, tryFirst, tryLast, handlerFirst, handlerLast]
    rfl

theorem catchable_of_ofClause {r : Region} (accepted : ofClause contains body method c = .ok r) :
    Catchable contains r := by
  obtain ⟨marks, -⟩ := ofClause_eq_ok.mp accepted
  intro type same
  rw [same] at marks
  exact marks.2.2

end

/-- The clause of a region has the flags and the argument of its kind, unless its type cannot be caught. -/
theorem marks_toClause {code : List Instruction} (small : codeSize code < 2 ^ 32) {r : Region}
    (inside : Inside code.length r) (contains : Token → Bool) (method : String) (kind : RegionKind) :
    Marks contains ⟨code, offsets code⟩ method (toClause (offsets code).toArray r) kind ↔
      kind = r.kind ∧ Catchable contains r := by
  have own (catchable : Catchable contains r) :
      Marks contains ⟨code, offsets code⟩ method (toClause (offsets code).toArray r) r.kind := by
    unfold Marks toClause
    cases shape : r.kind with
    | catches type => exact ⟨rfl, rfl, catchable type shape⟩
    | filter start => exact ⟨rfl, startOf_offset small (inside.filter start shape) method⟩
    | cleanup => rfl
    | fault => rfl
  constructor
  · intro marks
    have catchable : Catchable contains r := by
      intro type shape
      cases kind with
      | catches found =>
        obtain ⟨-, argument, accepted⟩ := marks
        simp only [toClause, shape] at argument
        cases found
        cases type
        cases argument
        exact accepted
      | filter start => simp [Marks, toClause, shape] at marks
      | cleanup => simp [Marks, toClause, shape] at marks
      | fault => simp [Marks, toClause, shape] at marks
    -- a clause has one kind
    have same := (kindOf_of_marks marks).symm.trans (kindOf_of_marks (own catchable))
    exact ⟨Except.ok.inj same, catchable⟩
  · rintro ⟨rfl, catchable⟩
    exact own catchable

/-- Reading the clause of a region answers the region, or fails. -/
theorem ofClause_toClause {code : List Instruction} (small : codeSize code < 2 ^ 32) {r : Region}
    (inside : Inside code.length r) (contains : Token → Bool) (method : String) (result : Region) :
    ofClause contains ⟨code, offsets code⟩ method (toClause (offsets code).toArray r) = .ok result ↔
      result = r ∧ Catchable contains r := by
  obtain ⟨⟨tried, tryEnd⟩, ⟨handled, handlerEnd⟩, -⟩ := id inside
  have tryStart := startOf_offset small (Nat.lt_of_lt_of_le tried tryEnd) method
  have tryStop := endOf_offset small (Nat.le_of_lt tried) tryEnd method
  have handlerStart := startOf_offset small (Nat.lt_of_lt_of_le handled handlerEnd) method
  have handlerStop := endOf_offset small (Nat.le_of_lt handled) handlerEnd method
  rw [ofClause_eq_ok, marks_toClause small inside]
  constructor
  · rintro ⟨⟨kind, catchable⟩, ⟨tryFirst, tryLast⟩, handlerFirst, handlerLast⟩
    refine ⟨?_, catchable⟩
    obtain ⟨_, _, _, _, _⟩ := result
    cases kind
    cases tryStart.symm.trans tryFirst
    cases tryStop.symm.trans tryLast
    cases handlerStart.symm.trans handlerFirst
    cases handlerStop.symm.trans handlerLast
    rfl
  · rintro ⟨rfl, catchable⟩
    exact ⟨⟨rfl, catchable⟩, ⟨tryStart, tryStop⟩, handlerStart, handlerStop⟩

/-- All clauses of a body. -/
theorem mapM_ofClause {code : List Instruction} (small : codeSize code < 2 ^ 32) {regions : List Region}
    (inside : ∀ r ∈ regions, Inside code.length r) (contains : Token → Bool) (method : String)
    (results : List Region) :
    (regions.map (toClause (offsets code).toArray)).mapM
        (ofClause contains ⟨code, offsets code⟩ method) = .ok results ↔
      results = regions ∧ ∀ r ∈ regions, Catchable contains r := by
  rw [mapM_map_eq_ok]
  induction regions generalizing results with
  | nil => simp
  | cons r regions ih =>
    have first := ofClause_toClause small (inside r List.mem_cons_self) contains method
    have others := ih fun other member => inside other (List.mem_cons_of_mem r member)
    rw [List.forall₂_cons_left_iff, List.forall_mem_cons]
    constructor
    · rintro ⟨one, more, found, all, rfl⟩
      obtain ⟨rfl, catchable⟩ := (first one).mp found
      obtain ⟨rfl, rest⟩ := (others more).mp all
      exact ⟨rfl, catchable, rest⟩
    · rintro ⟨rfl, catchable, rest⟩
      exact ⟨r, regions, (first r).mpr ⟨rfl, catchable⟩, (others regions).mpr ⟨rfl, rest⟩, rfl⟩

end Region

end CilWeaver
