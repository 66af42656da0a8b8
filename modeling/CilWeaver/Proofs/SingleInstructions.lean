import CilWeaver.Proofs.DecodedCode

/-!
Decoding code as a whole and instruction by instruction. Both go through the data with one reader and differ in what
they make of a target: one looks it up among the places that were passed, the other answers it as it is.
-/

namespace CilWeaver

open Step

theorem Reader.ofResult_eq_ok {α : Type} {result : Result α} {a : α} {c c' : Cursor} :
    ofResult result c = .ok a c' ↔ result = .ok a ∧ c = c' := by
  cases result with
  | ok b => rw [ofResult, pure_eq_ok, Except.ok.injEq]
  | error e => exact ⟨fun h => absurd h throw_ne_ok, fun h => nomatch h.1⟩

namespace Code

open Reader

theorem readInstruction_eq_ok {literal : Nat → Result String} {c c' : Cursor} {i : Instruction} :
    readInstruction literal c = .ok i c' ↔
      ∃ raw, readRaw literal c = .ok raw c' ∧ raw.mapM (absolute c.position) = .ok i := by
  have here : readInstruction literal c =
      (readRaw literal >>= fun raw => ofResult (raw.mapM (absolute c.position))) c := rfl
  rw [here, bind_eq_ok]
  constructor
  · rintro ⟨raw, c₁, read, run⟩
    obtain ⟨found, rfl⟩ := ofResult_eq_ok.mp run
    exact ⟨raw, read, found⟩
  · rintro ⟨raw, read, found⟩
    exact ⟨raw, c', read, ofResult_eq_ok.mpr ⟨found, rfl⟩⟩

/-- Reading instructions one by one is scanning them and taking their targets as they are. -/
theorem repeats_readInstruction {literal : Nat → Result String} {c : Cursor} {items : List (Nat × Instruction)} :
    Repeats (readInstruction literal) c items ↔ ∃ raws, Repeats (readRaw literal) c raws ∧
      List.Forall₂ (fun raw item => raw.1 = item.1 ∧ raw.2.mapM (absolute raw.1) = .ok item.2) raws items := by
  constructor
  · intro repeats
    induction repeats with
    | ended position => exact ⟨[], .ended position, .nil⟩
    | step more read _ ih =>
      obtain ⟨raws, others, related⟩ := ih
      obtain ⟨raw, one, answer⟩ := readInstruction_eq_ok.mp read
      exact ⟨_, .step more one others, .cons ⟨rfl, answer⟩ related⟩
  · rintro ⟨raws, repeats, related⟩
    induction repeats generalizing items with
    | ended position =>
      cases related
      exact .ended position
    | @step c c' raw raws more read _ ih =>
      obtain ⟨⟨place, i⟩, items, ⟨rfl, answer⟩, others, rfl⟩ := List.forall₂_cons_left_iff.mp related
      exact .step more (readInstruction_eq_ok.mpr ⟨raw, read, answer⟩) (ih others)

/-! Targets by offset and by index -/

/-- The instruction with the answer for each target in its place. -/
def Relinked (index? : Nat → Option Nat) (i j : Instruction) : Prop :=
  ∃ index : Nat → Nat, (∀ t ∈ i.targets, index? t = some (index t)) ∧ j = i.map index

theorem resolve_via_absolute {starts : List Nat} {start index : Nat} {target : Int} :
    resolve starts start target = .ok index ↔
      ∃ offset, absolute start target = .ok offset ∧ starts.idxOf? offset = some index := by
  unfold resolve absolute
  by_cases negative : target < 0
  · simp [negative]
  · simp only [negative, ↓reduceIte, Except.ok.injEq, exists_eq_left']
    cases starts.idxOf? target.toNat with
    | none => simp
    | some place => simp

theorem forall₂_middle {α β γ : Type} {R : α → β → Prop} {S : β → γ → Prop} {as : List α} {cs : List γ} :
    List.Forall₂ (fun a c => ∃ b, R a b ∧ S b c) as cs ↔ ∃ bs, List.Forall₂ R as bs ∧ List.Forall₂ S bs cs := by
  constructor
  · intro all
    induction all with
    | nil => exact ⟨[], .nil, .nil⟩
    | cons one _ ih =>
      obtain ⟨b, first, second⟩ := one
      obtain ⟨bs, firsts, seconds⟩ := ih
      exact ⟨b :: bs, .cons first firsts, .cons second seconds⟩
  · rintro ⟨bs, firsts, seconds⟩
    induction firsts generalizing cs with
    | nil =>
      cases seconds
      exact .nil
    | cons first _ ih =>
      obtain ⟨c, cs, second, others, rfl⟩ := List.forall₂_cons_left_iff.mp seconds
      exact .cons ⟨_, first, second⟩ (ih others)

theorem forall₂_eq_some {h : Nat → Option Nat} {vs us : List Nat} :
    List.Forall₂ (fun v u => h v = some u) vs us ↔ ∃ k : Nat → Nat, (∀ v ∈ vs, h v = some (k v)) ∧ us = vs.map k := by
  constructor
  · intro all
    refine ⟨fun v => (h v).getD 0, fun v member => ?_, ?_⟩
    · obtain ⟨u, -, found⟩ := forall₂_of_mem all member
      simp only [found, Option.getD_some]
    · have same : vs.map (fun v => (h v).getD 0) = us.map id := map_eq_map all fun v u found => by rw [found]; rfl
      rw [same, List.map_id]
  · rintro ⟨k, found, rfl⟩
    rw [List.forall₂_map_right_iff, List.forall₂_same]
    exact found

section

variable {σ ε : Type} {f g : σ → Except ε Nat} {h : Nat → Option Nat}

theorem list_mapM_via (via : ∀ t u, f t = .ok u ↔ ∃ v, g t = .ok v ∧ h v = some u) {ts : List σ} {us : List Nat} :
    ts.mapM f = .ok us ↔ ∃ vs, ts.mapM g = .ok vs ∧ ∃ k : Nat → Nat, (∀ v ∈ vs, h v = some (k v)) ∧ us = vs.map k := by
  simp only [Outcome.mapM_eq_ok, via, forall₂_middle, forall₂_eq_some]

theorem operand_mapM_via (via : ∀ t u, f t = .ok u ↔ ∃ v, g t = .ok v ∧ h v = some u) {operand : OperandAt σ}
    {result : Operand} : operand.mapM f = .ok result ↔ ∃ middle, operand.mapM g = .ok middle ∧
      ∃ k : Nat → Nat, (∀ v ∈ middle.targets, h v = some (k v)) ∧ result = middle.map k := by
  cases operand with
  | target t =>
    constructor
    · intro answer
      obtain ⟨u, found, rfl⟩ := Outcome.map_eq_ok.mp answer
      obtain ⟨v, first, second⟩ := (via t u).mp found
      exact ⟨.target v, Outcome.map_eq_ok.mpr ⟨v, first, rfl⟩, fun _ => u, List.forall_mem_singleton.mpr second, rfl⟩
    · rintro ⟨middle, first, k, found, rfl⟩
      obtain ⟨v, one, rfl⟩ := Outcome.map_eq_ok.mp first
      exact Outcome.map_eq_ok.mpr ⟨k v, (via t (k v)).mpr ⟨v, one, found v (List.mem_singleton_self v)⟩, rfl⟩
  | switch ts =>
    constructor
    · intro answer
      obtain ⟨us, found, rfl⟩ := Outcome.map_eq_ok.mp answer
      obtain ⟨vs, first, k, second, rfl⟩ := (list_mapM_via via).mp found
      exact ⟨.switch vs, Outcome.map_eq_ok.mpr ⟨vs, first, rfl⟩, k, second, rfl⟩
    · rintro ⟨middle, first, k, second, rfl⟩
      obtain ⟨vs, found, rfl⟩ := Outcome.map_eq_ok.mp first
      exact Outcome.map_eq_ok.mpr ⟨vs.map k, (list_mapM_via via).mpr ⟨vs, found, k, second, rfl⟩, rfl⟩
  | _ =>
    constructor
    · intro answer
      cases answer
      exact ⟨_, rfl, id, List.forall_mem_nil _, rfl⟩
    · rintro ⟨middle, first, k, -, rfl⟩
      cases first
      rfl

/-- A step that goes through another one does so for an instruction as for a target. -/
theorem mapM_via (via : ∀ t u, f t = .ok u ↔ ∃ v, g t = .ok v ∧ h v = some u) {raw : InstructionAt σ}
    {j : Instruction} : raw.mapM f = .ok j ↔ ∃ i, raw.mapM g = .ok i ∧ Relinked h i j := by
  constructor
  · intro answer
    obtain ⟨operand, found, rfl⟩ := Outcome.map_eq_ok.mp answer
    obtain ⟨middle, first, k, second, rfl⟩ := (operand_mapM_via via).mp found
    exact ⟨⟨raw.opcode, middle⟩, Outcome.map_eq_ok.mpr ⟨middle, first, rfl⟩, k, second, rfl⟩
  · rintro ⟨i, first, k, second, rfl⟩
    obtain ⟨middle, found, rfl⟩ := Outcome.map_eq_ok.mp first
    exact Outcome.map_eq_ok.mpr ⟨middle.map k, (operand_mapM_via via).mpr ⟨middle, found, k, second, rfl⟩, rfl⟩

end

/-- Decoding code is reading its instructions one by one and looking each target up among their places. -/
theorem decode_via_readInstruction {literal : Nat → Result String} {bytes : Bytes} {body : DecodedBody} :
    decode literal bytes = .ok body ↔ ∃ items, Repeats (readInstruction literal) (.start bytes) items ∧
      List.Forall₂ (fun item j => Relinked (items.map (·.1)).idxOf? item.2 j) items body.code ∧
      body.offsets = items.map (·.1) ++ [bytes.length] := by
  have each : ∀ (starts : List Nat) (raws : List (Nat × InstructionAt Int)) (code : List Instruction),
      List.Forall₂ (fun raw j => raw.2.mapM (resolve starts raw.1) = .ok j) raws code ↔
        ∃ items, List.Forall₂ (fun raw item => raw.1 = item.1 ∧ raw.2.mapM (absolute raw.1) = .ok item.2) raws items ∧
          List.Forall₂ (fun (item : Nat × Instruction) j => Relinked starts.idxOf? item.2 j) items code := by
    intro starts raws code
    rw [← forall₂_middle]
    simp only [mapM_via fun t u => resolve_via_absolute, Prod.exists, exists_and_left, and_assoc, exists_eq_left']
  have places : ∀ {raws : List (Nat × InstructionAt Int)} {items : List (Nat × Instruction)},
      List.Forall₂ (fun raw item => raw.1 = item.1 ∧ raw.2.mapM (absolute raw.1) = .ok item.2) raws items →
        raws.map (·.1) = items.map (·.1) := fun related => map_eq_map related fun _ _ same => same.1
  unfold decode
  rw [Outcome.bind_eq_ok]
  constructor
  · rintro ⟨raws, scanned, rest⟩
    obtain ⟨code, resolved, last⟩ := Outcome.bind_eq_ok.mp rest
    cases Outcome.pure_eq_ok.mp last
    obtain ⟨items, related, relinked⟩ := (each _ raws code).mp (Outcome.mapM_eq_ok.mp resolved)
    rw [places related] at relinked ⊢
    exact ⟨items, repeats_readInstruction.mpr ⟨raws, scan_iff_repeats.mp scanned, related⟩, relinked, rfl⟩
  · rintro ⟨items, repeats, relinked, offsets⟩
    obtain ⟨raws, scanned, related⟩ := repeats_readInstruction.mp repeats
    rw [← places related] at relinked offsets
    have resolved := (each _ raws body.code).mpr ⟨items, related, relinked⟩
    have answer : pure ⟨body.code, raws.map (·.1) ++ [bytes.length]⟩ = (.ok body : Result DecodedBody) := by
      rw [← offsets]
      rfl
    exact ⟨raws, scan_iff_repeats.mpr scanned,
      Outcome.bind_eq_ok.mpr ⟨body.code, Outcome.mapM_eq_ok.mpr resolved, answer⟩⟩

/-- What decoding the code as a whole answers, if reading it one by one answers `items`. -/
structure Follows (size : Nat) (items : List (Nat × Instruction)) (body : DecodedBody) : Prop where
  offsets : body.offsets = items.map (·.1) ++ [size]
  first : body.offsets.head? = some 0
  ascending : body.offsets.Pairwise (· < ·)
  code : List.Forall₂ (fun item j => Relinked body.indexOf? item.2 j) items body.code

/-- Decoding code as a whole succeeds iff it does instruction by instruction and each target is one of the places. -/
theorem decode_stepwise (literal : Nat → Result String) (bytes : Bytes) :
    ((∃ body, decode literal bytes = .ok body) ↔
      ∃ items, Repeats (readInstruction literal) (.start bytes) items ∧
        ∀ item ∈ items, ∀ offset ∈ item.2.targets, offset ∈ items.map (·.1)) ∧
    ∀ body items, decode literal bytes = .ok body → Repeats (readInstruction literal) (.start bytes) items →
      Follows bytes.length items body := by
  refine ⟨⟨?_, ?_⟩, ?_⟩
  · rintro ⟨body, decoded⟩
    obtain ⟨items, repeats, code, -⟩ := decode_via_readInstruction.mp decoded
    refine ⟨items, repeats, fun item member offset target => ?_⟩
    obtain ⟨j, -, index, found, -⟩ := forall₂_of_mem code member
    obtain ⟨bound, same, -⟩ := List.idxOf?_eq_some_iff.mp (found offset target)
    exact same ▸ List.getElem_mem bound
  · rintro ⟨items, repeats, inside⟩
    have found : ∀ item ∈ items, ∀ offset ∈ item.2.targets, (items.map (·.1)).idxOf? offset =
        some (((items.map (·.1)).idxOf? offset).getD 0) := by
      intro item member offset target
      obtain ⟨index, known⟩ := Option.isSome_iff_exists.mp (List.isSome_idxOf?.mpr (inside item member offset target))
      rw [known, Option.getD_some]
    refine ⟨⟨items.map fun item => item.2.map fun offset => ((items.map (·.1)).idxOf? offset).getD 0, _⟩,
      decode_via_readInstruction.mpr ⟨items, repeats, ?_, rfl⟩⟩
    rw [List.forall₂_map_right_iff, List.forall₂_same]
    exact fun item member => ⟨_, found item member, rfl⟩
  · intro body items decoded repeats
    obtain ⟨items', repeats', code, offsets⟩ := decode_via_readInstruction.mp decoded
    obtain rfl := repeats.unique repeats'
    have laid := (laid_of_decode decoded).offsets
    have starts : body.indexOf? = (items.map (·.1)).idxOf? := by
      have count : body.code.length = (items.map (·.1)).length := by
        rw [List.length_map, code.length_eq]
      funext offset
      rw [DecodedBody.indexOf?, offsets, count, List.take_left' rfl]
    refine ⟨offsets, ?_, laid ▸ pairwise_offsetsFrom 0 body.code, starts ▸ code⟩
    rw [laid, Code.offsets, offsetsFrom_eq_cons, List.head?_cons]

/-- A branch back to the start and a branch over an instruction. -/
theorem decode_stepwise_sample :
    ∃ body items, decode (fun _ => .ok "a") [0x16, 0x2D, 0xFD, 0x2B, 0x01, 0x00, 0x2A] = .ok body ∧
      Repeats (readInstruction fun _ => .ok "a") (.start [0x16, 0x2D, 0xFD, 0x2B, 0x01, 0x00, 0x2A]) items ∧
      Follows 7 items body ∧ body.offsets = [0, 1, 3, 5, 6, 7] ∧
      body.code.map (·.targets) = [[], [0], [4], [], []] := by
  have found : ∃ body, decode (fun _ => .ok "a") [0x16, 0x2D, 0xFD, 0x2B, 0x01, 0x00, 0x2A] = .ok body ∧
      decide (body.offsets = [0, 1, 3, 5, 6, 7] ∧ body.code.map (·.targets) = [[], [0], [4], [], []]) = true :=
    Outcome.exists_of_any (by decide +kernel)
  obtain ⟨body, decoded, holds⟩ := found
  obtain ⟨stepwise, follows⟩ := decode_stepwise (fun _ => .ok "a") [0x16, 0x2D, 0xFD, 0x2B, 0x01, 0x00, 0x2A]
  obtain ⟨items, repeats, -⟩ := stepwise.mp ⟨body, decoded⟩
  exact ⟨body, items, decoded, repeats, follows body items decoded repeats, of_decide_eq_true holds⟩

end Code

end CilWeaver
