import CilWeaver.Proofs.Bodies

/-!
Edits keep every position of a body at what it named. A list of tags goes through the same edits as
the instructions and says which instruction each of them was at first.
-/

namespace CilWeaver

namespace OperandAt

variable {τ σ ρ : Type}

theorem map_map (g : σ → ρ) (f : τ → σ) (o : OperandAt τ) : (o.map f).map g = o.map (g ∘ f) := by
  cases o with
  | switch ts => exact congrArg switch (List.map_map ..)
  | _ => rfl

end OperandAt

namespace InstructionAt

variable {τ σ ρ : Type}

theorem map_map (g : σ → ρ) (f : τ → σ) (i : InstructionAt τ) : (i.map f).map g = i.map (g ∘ f) :=
  congrArg (InstructionAt.mk i.opcode) (OperandAt.map_map g f i.operand)

theorem map_id : InstructionAt.map (id : τ → τ) = id :=
  funext fun i => congrArg (InstructionAt.mk i.opcode) (OperandAt.map_id i.operand)

end InstructionAt

namespace Region

/-- The region protects the instruction at the index. -/
def Tries (r : Region) (index : Nat) : Prop := r.tryStart ≤ index ∧ index < r.tryEnd

/-- The handler of the region has the instruction at the index. -/
def Handles (r : Region) (index : Nat) : Prop := r.handlerStart ≤ index ∧ index < r.handlerEnd

theorem map_map (g f : Nat → Nat) (r : Region) : (r.map f).map g = r.map (g ∘ f) := by
  obtain ⟨kind, tryStart, tryEnd, handlerStart, handlerEnd⟩ := r
  cases kind <;> rfl

variable {f : Nat → Nat} (ordered : StrictMono f)
include ordered

theorem tries_map (r : Region) (index : Nat) : (r.map f).Tries (f index) ↔ r.Tries index :=
  and_congr ordered.le_iff_le ordered.lt_iff_lt

theorem handles_map (r : Region) (index : Nat) : (r.map f).Handles (f index) ↔ r.Handles index :=
  and_congr ordered.le_iff_le ordered.lt_iff_lt

theorem inside_map (r : Region) (count : Nat) : Inside (f count) (r.map f) ↔ Inside count r := by
  have filter : (∀ start, (r.map f).kind = .filter start → start < f count) ↔
      ∀ start, r.kind = .filter start → start < count := by
    obtain ⟨kind, tryStart, tryEnd, handlerStart, handlerEnd⟩ := r
    cases kind with
    | filter start =>
      simp only [Region.map, RegionKind.map, RegionKind.filter.injEq, forall_eq', ordered.lt_iff_lt]
    | _ => simp [Region.map, RegionKind.map]
  constructor
  · rintro ⟨tried, handled, filtered⟩
    exact ⟨⟨ordered.lt_iff_lt.mp tried.1, ordered.le_iff_le.mp tried.2⟩,
      ⟨ordered.lt_iff_lt.mp handled.1, ordered.le_iff_le.mp handled.2⟩, filter.mp filtered⟩
  · rintro ⟨tried, handled, filtered⟩
    exact ⟨⟨ordered tried.1, ordered.monotone tried.2⟩, ⟨ordered handled.1, ordered.monotone handled.2⟩,
      filter.mpr filtered⟩

end Region

theorem BodySymbols.map_map (g f : Nat → Nat) (s : BodySymbols) : (s.map f).map g = s.map (g ∘ f) := by
  unfold BodySymbols.map
  rw [List.map_map]
  rfl

namespace MethodBody

open Step

theorem shift_strictMono (start count : Nat) : StrictMono (shift start count) := by
  intro i j less
  unfold shift
  split <;> split <;> omega

theorem renumber_renumber (g f : Nat → Nat) (b : MethodBody) :
    (b.renumber f).renumber g = b.renumber (g ∘ f) := by
  unfold renumber
  simp only [List.map_map, Option.map_map]
  congr 1
  · exact List.map_congr_left fun i _ => i.map_map g f
  · exact List.map_congr_left fun r _ => r.map_map g f
  · exact congrArg (b.symbols?.map ·) (funext fun s => s.map_map g f)

theorem renumber_id (b : MethodBody) : b.renumber id = b := by
  have regions : Region.map id = id := by
    funext r
    obtain ⟨kind, tryStart, tryEnd, handlerStart, handlerEnd⟩ := r
    cases kind <;> rfl
  have symbols : BodySymbols.map id = id := by
    funext s
    unfold BodySymbols.map
    exact congrArg (BodySymbols.mk s.localSignature) (List.map_id _)
  unfold renumber
  rw [InstructionAt.map_id, List.map_id, regions, List.map_id, symbols, Option.map_id]
  rfl

/-- Points keep their order and their instructions. -/
theorem checkPoints_map {f : Nat → Nat} (ordered : StrictMono f) {count documents : Nat}
    {previous? : Option Nat} {points : List SourcePoint} :
    checkPoints (f count) documents (previous?.map f) (points.map (·.map f)) = .ok () ↔
      checkPoints count documents previous? points = .ok () := by
  induction points generalizing previous? with
  | nil => exact Iff.rfl
  | cons p points ih =>
    have place : (p.map f).place = f p.place := rfl
    have document : (p.map f).document = p.document := rfl
    have order : ((previous?.map f).any (f p.place ≤ ·)) = previous?.any (p.place ≤ ·) := by
      rw [Option.any_map]
      exact congrArg (previous?.any ·) (funext fun previous => decide_eq_decide.mpr ordered.le_iff_le)
    rw [List.map_cons, checkPoints, checkPoints, place, document, order, ← Option.map_some]
    simp only [ordered.le_iff_le]
    split
    · simp
    · split
      · simp
      · split
        · simp
        · exact ih

/-- A list with other items put in front of the one at `start`. -/
def splice {α : Type} (start : Nat) (new items : List α) : List α :=
  items.take start ++ new ++ items.drop start

theorem length_splice {α : Type} (start : Nat) (new items : List α) :
    (splice start new items).length = items.length + new.length := by
  rw [splice, List.length_append, List.length_append, List.length_take, List.length_drop]
  omega

/-- An item is found where its position was shifted to. -/
theorem getElem?_splice {α : Type} {start : Nat} (new : List α) {items : List α} (inside : start ≤ items.length)
    (index : Nat) : (splice start new items)[shift start new.length index]? = items[index]? := by
  have front : (items.take start).length = start := List.length_take_of_le inside
  unfold splice shift
  split
  · rename_i behind
    rw [List.getElem?_append_right (by rw [List.length_append, front]; omega), List.getElem?_drop,
      List.length_append, front]
    congr 1
    omega
  · rename_i before
    rw [List.append_assoc, List.getElem?_append_left (by omega), List.getElem?_take_of_lt (by omega)]

/-- What was put in front of the items is found where they were. -/
theorem getElem?_splice_new {α : Type} {start : Nat} {new items : List α} (inside : start ≤ items.length) {index : Nat}
    (less : index < new.length) : (splice start new items)[start + index]? = new[index]? := by
  have front : (items.take start).length = start := List.length_take_of_le inside
  unfold splice
  rw [List.append_assoc, List.getElem?_append_right (by omega), front, Nat.add_sub_cancel_left,
    List.getElem?_append_left less]

theorem insert_eq_ok {b edited : MethodBody} {start : Nat} {code : List Instruction} :
    b.insert start code = .ok edited ↔ start ≤ b.length ∧ edited =
      { b.renumber (shift start code.length) with
        code := splice start code (b.code.map (·.map (shift start code.length))) } := by
  unfold insert
  split
  · rename_i outside
    exact ⟨fun h => (by cases h), fun h => absurd h.1 (Nat.not_le.mpr outside)⟩
  · rename_i inside
    exact ⟨fun h => ⟨Nat.not_lt.mp inside, (Except.ok.inj h).symm⟩, fun h => congrArg Except.ok h.2.symm⟩

/-- Instructions, and the index of the one that they are put in front of. -/
structure Insertion where
  start : Nat
  code : List Instruction

/-- Inserts into the body that a caller holds, who is left with it if the insertion is refused. -/
def insertHeld (edit : Insertion) : EStateM Error MethodBody Unit := fun b =>
  match b.insert edit.start edit.code with
  | .ok edited => .ok () edited
  | .error e => .error e b

theorem insertHeld_eq_ok {edit : Insertion} {b edited : MethodBody} :
    insertHeld edit b = .ok () edited ↔ b.insert edit.start edit.code = .ok edited := by
  unfold insertHeld
  split
  · rename_i found same
    rw [same]
    simp
  · rename_i e same
    rw [same]
    simp

def insertAll (edits : List Insertion) : EStateM Error MethodBody Unit := edits.forM insertHeld

/-- Where a position goes in the course of the edits. -/
def shiftAll (edits : List Insertion) (index : Nat) : Nat :=
  edits.foldl (fun index edit => shift edit.start edit.code.length index) index

/-- Which instruction each of the instructions after the edits was before, when there were `count`;
    none for an inserted one. -/
def origins (edits : List Insertion) (count : Nat) : List (Option Nat) :=
  edits.foldl (fun tags edit => splice edit.start (List.replicate edit.code.length none) tags)
    ((List.range count).map some)

/-- The instructions whose tag is one of an instruction that was there before. -/
def originals (tags : List (Option Nat)) (code : List Instruction) : List Instruction :=
  ((tags.zip code).filter (·.1.isSome)).map (·.2)

theorem originals_append {front back : List (Option Nat)} {code code' : List Instruction}
    (h : front.length = code.length) :
    originals (front ++ back) (code ++ code') = originals front code ++ originals back code' := by
  rw [originals, List.zip_append h, List.filter_append, List.map_append]
  rfl

theorem originals_replicate_none (code : List Instruction) :
    originals (List.replicate code.length none) code = [] := by
  unfold originals
  rw [List.map_eq_nil_iff, List.filter_eq_nil_iff]
  rintro ⟨tag, i⟩ member
  rw [List.eq_of_mem_replicate (List.of_mem_zip member).1]
  exact Bool.false_ne_true

theorem originals_map (tags : List (Option Nat)) (code : List Instruction) (f : Nat → Nat) :
    originals tags (code.map (·.map f)) = (originals tags code).map (·.map f) := by
  unfold originals
  rw [List.zip_map_right, List.filter_map, List.map_map, List.map_map]
  rfl

theorem originals_splice {tags : List (Option Nat)} {code new : List Instruction}
    (same : tags.length = code.length) (start : Nat) :
    originals (splice start (List.replicate new.length none) tags) (splice start new code) =
      originals tags code := by
  have front : (tags.take start).length = (code.take start).length := by
    rw [List.length_take, List.length_take, same]
  unfold splice
  rw [originals_append (by rw [List.length_append, List.length_append, front, List.length_replicate]),
    originals_append front, originals_replicate_none, List.append_nil, ← originals_append front,
    List.take_append_drop, List.take_append_drop]

/-- `after` is `before` with instructions inserted. The tags say which of its instructions were there
    before, and `f` where each position of `before` is now. -/
structure Carries (f : Nat → Nat) (tags : List (Option Nat)) (before after : MethodBody) : Prop where
  ordered : StrictMono f
  stop : f before.length = after.length
  tagged : tags.length = after.length
  tag : ∀ p < before.length, tags[f p]? = some (some p)
  place : ∀ p, p < before.length → after.code[f p]? = before.code[p]?.map (·.map f)
  originals : originals tags after.code = before.code.map (·.map f)
  rest : after = { before.renumber f with code := after.code }

namespace Carries

variable {f : Nat → Nat} {tags : List (Option Nat)} {before after edited : MethodBody}

theorem refl (b : MethodBody) : Carries id ((List.range b.length).map some) b b where
  ordered := strictMono_id
  stop := rfl
  tagged := by rw [List.length_map, List.length_range]
  tag p inside := by rw [id, List.getElem?_map, List.getElem?_range inside]; rfl
  place p _ := by
    rw [InstructionAt.map_id, Option.map_id]
    rfl
  originals := by
    have all : ∀ pair ∈ ((List.range b.length).map some).zip b.code, pair.1.isSome = true := by
      intro pair member
      obtain ⟨index, -, tag⟩ := List.mem_map.mp (List.of_mem_zip member).1
      rw [← tag]
      rfl
    rw [InstructionAt.map_id, List.map_id, MethodBody.originals, List.filter_eq_self.mpr all]
    exact List.map_snd_zip (by rw [List.length_map, List.length_range]; exact Nat.le_refl _)
  rest := by rw [renumber_id]

/-- One more insertion. -/
theorem insert (carries : Carries f tags before after) {start : Nat} {code : List Instruction}
    (done : after.insert start code = .ok edited) :
    Carries (shift start code.length ∘ f) (splice start (List.replicate code.length none) tags) before edited := by
  obtain ⟨inside, rfl⟩ := insert_eq_ok.mp done
  have size : (after.code.map (·.map (shift start code.length))).length = after.length := List.length_map ..
  constructor
  case ordered => exact (shift_strictMono start code.length).comp carries.ordered
  case stop =>
    change shift start code.length (f before.length) = (splice start code _).length
    rw [carries.stop, length_splice, size, shift, if_pos inside]
  case tagged =>
    change _ = (splice start code _).length
    rw [length_splice, length_splice, size, carries.tagged, List.length_replicate]
  case tag =>
    intro p less
    have found := getElem?_splice (List.replicate code.length none) (carries.tagged ▸ inside) (f p)
    rw [List.length_replicate] at found
    exact found.trans (carries.tag p less)
  case place =>
    intro p less
    refine (getElem?_splice code (size ▸ inside) (f p)).trans ?_
    rw [List.getElem?_map, carries.place p less, Option.map_map]
    exact congrArg (before.code[p]?.map ·) (funext fun i => i.map_map _ f)
  case originals =>
    rw [originals_splice (carries.tagged.trans size.symm), originals_map, carries.originals, List.map_map]
    exact List.map_congr_left fun i _ => i.map_map _ f
  case rest =>
    have moved : ∀ new : List Instruction, ({ after.renumber (shift start code.length) with code := new } : MethodBody) =
        { before.renumber (shift start code.length ∘ f) with code := new } := by
      intro new
      rw [carries.rest]
      exact congrArg (fun b : MethodBody => { b with code := new }) (renumber_renumber _ f before)
    exact moved _

/-- A whole run of insertions. -/
theorem insertAll {edits : List Insertion} (carries : Carries f tags before after)
    (done : MethodBody.insertAll edits after = .ok () edited) :
    Carries (shiftAll edits ∘ f)
      (edits.foldl (fun tags edit => splice edit.start (List.replicate edit.code.length none) tags) tags)
      before edited := by
  induction edits generalizing f tags after with
  | nil =>
    obtain ⟨-, rfl⟩ := pure_eq_ok.mp done
    exact carries
  | cons edit edits ih =>
    have steps : (insertHeld edit >>= fun _ => MethodBody.insertAll edits) after = .ok () edited := done
    obtain ⟨⟨⟩, next, first, others⟩ := bind_eq_ok.mp steps
    exact ih (carries.insert (insertHeld_eq_ok.mp first)) others

theorem regions_eq (carries : Carries f tags before after) : after.regions = before.regions.map (·.map f) := by
  rw [carries.rest]
  rfl

theorem symbols_eq (carries : Carries f tags before after) : after.symbols? = before.symbols?.map (·.map f) := by
  rw [carries.rest]
  rfl

theorem placed_iff (carries : Carries f tags before after) (documents : Nat) :
    Placed documents after ↔ Placed documents before := by
  have stop : after.code.length = f before.code.length := carries.stop.symm
  have regions : (∀ r ∈ after.regions, Region.Inside after.code.length r) ↔
      ∀ r ∈ before.regions, Region.Inside before.code.length r := by
    rw [carries.regions_eq, stop, List.forall_mem_map]
    exact forall₂_congr fun r _ => Region.inside_map carries.ordered r _
  have points : (∀ symbols, after.symbols? = some symbols →
        checkPoints after.code.length documents none symbols.points = .ok ()) ↔
      ∀ symbols, before.symbols? = some symbols →
        checkPoints before.code.length documents none symbols.points = .ok () := by
    rw [carries.symbols_eq, stop]
    cases before.symbols? with
    | none => simp
    | some symbols =>
      simp only [Option.map_some, Option.some.injEq, forall_eq']
      exact @checkPoints_map f carries.ordered _ _ none symbols.points
  exact ⟨fun h => ⟨regions.mp h.regions, points.mp h.points⟩, fun h => ⟨regions.mpr h.regions, points.mpr h.points⟩⟩

theorem checkIndices_iff (carries : Carries f tags before after) (documents : Nat) :
    after.checkIndices documents = .ok () ↔ before.checkIndices documents = .ok () := by
  rw [checkIndices_eq_ok, checkIndices_eq_ok]
  exact carries.placed_iff documents

end Carries

end MethodBody

end CilWeaver
