import CilWeaver.Proofs.LoadedImages
import CilWeaver.Proofs.WovenRuns

/-!
The source lines that a debugger shows. The code from one source point up to the next belongs to the lines of the
former, so that the point that covers an instruction is the last one at it or before it. Woven code keeps the
lines of the code it replaces, behind two instructions that belong to no line.
-/

namespace CilWeaver

open Code Step

namespace PointAt

def Ordered (points : List SourcePoint) : Prop := points.Pairwise fun p q => p.place < q.place

instance (points : List SourcePoint) : Decidable (Ordered points) := inferInstanceAs (Decidable (List.Pairwise _ _))

/-- The point that covers an instruction. -/
def covering? (points : List SourcePoint) (index : Nat) : Option SourcePoint :=
  (points.filter fun p => p.place ≤ index).getLast?

variable {points : List SourcePoint} {index : Nat}

/-- Among ordered points, the one that covers an instruction is the closest one that does not lie behind it. -/
theorem covering?_eq_some_iff (ordered : Ordered points) {p : SourcePoint} : covering? points index = some p ↔
    p ∈ points ∧ p.place ≤ index ∧ ∀ q ∈ points, q.place ≤ index → q.place ≤ p.place := by
  -- the points that do not lie behind the instruction are ordered too, so that all of them lie before the last one
  have closest : ∀ p, covering? points index = some p →
      p ∈ points ∧ p.place ≤ index ∧ ∀ q ∈ points, q.place ≤ index → q = p ∨ q.place < p.place := by
    intro p last
    obtain ⟨before, shape⟩ := List.getLast?_eq_some_iff.mp last
    have among : ∀ q, q ∈ before ++ [p] ↔ q ∈ points ∧ q.place ≤ index := by
      intro q
      rw [← shape, List.mem_filter, decide_eq_true_iff]
    obtain ⟨member, reached⟩ := (among p).mp (List.mem_append_right _ List.mem_cons_self)
    refine ⟨member, reached, fun q qMember qReached => ?_⟩
    have filtered := List.Pairwise.filter (fun p : SourcePoint => p.place ≤ index) ordered
    rw [shape, List.pairwise_append] at filtered
    rcases List.mem_append.mp ((among q).mpr ⟨qMember, qReached⟩) with earlier | same
    · exact .inr (filtered.2.2 q earlier p List.mem_cons_self)
    · exact .inl (List.mem_singleton.mp same)
  constructor
  · intro last
    obtain ⟨member, reached, others⟩ := closest p last
    refine ⟨member, reached, fun q qMember qReached => ?_⟩
    rcases others q qMember qReached with rfl | earlier
    · exact Nat.le_refl _
    · exact Nat.le_of_lt earlier
  · rintro ⟨member, reached, greatest⟩
    have some : p ∈ points.filter fun p => p.place ≤ index :=
      List.mem_filter.mpr ⟨member, decide_eq_true reached⟩
    cases last : covering? points index with
    | none => exact absurd some (List.getLast?_eq_none_iff.mp last ▸ List.not_mem_nil)
    | some r =>
      obtain ⟨rMember, rReached, others⟩ := closest r last
      rcases others p member reached with rfl | earlier
      · rfl
      · exact absurd (greatest r rMember rReached) (Nat.not_le.mpr earlier)

theorem covering?_cons (p : SourcePoint) (points : List SourcePoint) (index : Nat) :
    covering? (p :: points) index =
      if p.place ≤ index then some ((covering? points index).getD p) else covering? points index := by
  unfold covering?
  rw [List.filter_cons]
  by_cases reached : p.place ≤ index
  · rw [if_pos (decide_eq_true reached), if_pos reached, List.getLast?_cons]
  · rw [if_neg (by rwa [decide_eq_true_iff]), if_neg reached]

/-- A point at the first instruction covers what nothing else covers. -/
theorem covering?_hidden (document : UInt32) (points : List SourcePoint) (index : Nat) :
    covering? (.hidden 0 document :: points) index = some ((covering? points index).getD (.hidden 0 document)) :=
  (covering?_cons _ points index).trans (if_pos (Nat.zero_le index))

theorem covering?_eq_none (later : ∀ p ∈ points, index < p.place) : covering? points index = none := by
  refine List.getLast?_eq_none_iff.mpr (List.filter_eq_nil_iff.mpr fun p member => ?_)
  rw [decide_eq_true_iff]
  exact Nat.not_le.mpr (later p member)

/-- Points that are moved along with the instructions still cover them. -/
theorem covering?_map {f : SourcePoint → SourcePoint} {moved : Nat}
    (along : ∀ p, (f p).place ≤ moved ↔ p.place ≤ index) :
    covering? (points.map f) moved = (covering? points index).map f := by
  have same : ((fun p : SourcePoint => decide (p.place ≤ moved)) ∘ f) = fun p => decide (p.place ≤ index) := by
    funext p
    exact decide_eq_decide.mpr (along p)
  unfold covering?
  rw [List.filter_map, same, List.getLast?_map]

end PointAt

namespace MethodBody

open PointAt

def points (b : MethodBody) : List SourcePoint := (b.symbols?.map (·.points)).getD []

/-- What a debugger shows for a body that was put behind a prologue: nothing in the prologue, which counts to the document of
    the first point, and behind it the lines it showed before. A point is moved along and takes the given form. -/
structure ShowsBehind (time : TimeOfDay) (form : SourcePoint → SourcePoint) (first : SourcePoint) (b woven : MethodBody) :
    Prop where
  code : List.Forall₂ Instruction.Widened (prologue time ++ b.code.map (InstructionAt.map (· + 2))) woven.code
  ordered : Ordered woven.points
  prologue : ∀ index < 2, covering? woven.points index = some (.hidden 0 first.document)
  behind : ∀ index, covering? woven.points (index + 2) =
    some (((covering? b.points index).map fun p => form (p.map (· + 2))).getD (.hidden 0 first.document))

variable {b : MethodBody} {first : SourcePoint}

theorem showsBehind_of_points {time : TimeOfDay} {woven : MethodBody} {form : SourcePoint → SourcePoint}
    (stays : ∀ p, (form p).place = p.place) (ordered : Ordered b.points)
    (code : List.Forall₂ Instruction.Widened (CilWeaver.prologue time ++ b.code.map (InstructionAt.map (· + 2))) woven.code)
    (points : woven.points = .hidden 0 first.document :: b.points.map fun p => form (p.map (· + 2))) :
    b.ShowsBehind time form first woven := by
  have place : ∀ p : SourcePoint, (form (p.map (· + 2))).place = p.place + 2 := fun p => stays _
  have later : ∀ p ∈ b.points.map fun p => form (p.map (· + 2)), 2 ≤ p.place := by
    intro p member
    obtain ⟨q, -, rfl⟩ := List.mem_map.mp member
    rw [place]
    omega
  refine ⟨code, ?_, fun index inside => ?_, fun index => ?_⟩
  · unfold Ordered at ordered ⊢
    rw [points, List.pairwise_cons, List.pairwise_map]
    refine ⟨fun p member => Nat.lt_of_lt_of_le (by decide : 0 < 2) (later p member), ordered.imp fun {p q} before => ?_⟩
    rw [place, place]
    omega
  · rw [points, covering?_hidden, covering?_eq_none fun p member => Nat.lt_of_lt_of_le inside (later p member),
      Option.getD_none]
  · have along : ∀ p : SourcePoint, (form (p.map (· + 2))).place ≤ index + 2 ↔ p.place ≤ index := by
      intro p
      rw [place]
      omega
    rw [points, covering?_hidden, covering?_map along]

theorem symbols_of_head (head : b.points.head? = some first) :
    ∃ s, b.symbols? = some s ∧ b.points = s.points ∧ openingPoint? s = some (.hidden 0 first.document) := by
  unfold points at head ⊢
  cases shape : b.symbols? with
  | none =>
    rw [shape] at head
    cases head
  | some s =>
    rw [shape] at head
    have opening : s.points.head? = some first := head
    refine ⟨s, rfl, rfl, ?_⟩
    rw [openingPoint?, opening, Option.map_some]

theorem symbols?_woven (head : b.points.head? = some first) (time : TimeOfDay) :
    ∃ signature, (b.woven time .preserve).symbols? =
      some ⟨signature, .hidden 0 first.document :: b.points.map (PointAt.map (· + 2))⟩ := by
  obtain ⟨s, symbols, points, opening⟩ := symbols_of_head head
  refine ⟨s.localSignature, ?_⟩
  rw [points, woven, symbols]
  simp only [Option.map_some, opening]
  rfl

/-- Weaving keeps the lines of the code behind the prologue. -/
theorem showsBehind_weave (ordered : Ordered b.points) (head : b.points.head? = some first) (time : TimeOfDay) :
    b.ShowsBehind time id first (b.weave time .preserve) := by
  obtain ⟨signature, symbols⟩ := symbols?_woven head time
  rw [weave_eq_woven]
  refine showsBehind_of_points (fun _ => rfl) ordered ?_ ?_
  · exact List.forall₂_same.mpr fun i _ => Instruction.Widened.refl i
  · rw [MethodBody.points, symbols]
    rfl

/-- A woven body that was written and read shows the same lines; its hidden points have no columns. -/
theorem showsBehind_reread {m : Module} (present : m.symbols?.isSome = true) (ordered : Ordered b.points)
    (head : b.points.head? = some first) (time : TimeOfDay) :
    b.ShowsBehind time canonical first ((b.weave time .preserve).reread m) := by
  obtain ⟨signature, symbols⟩ := symbols?_woven head time
  rw [weave_eq_woven]
  refine showsBehind_of_points place_canonical ordered ?_ ?_
  · exact widened_promote _
  · unfold reread storedSymbols?
    rw [present, symbols]
    change (PointAt.hidden 0 first.document :: b.points.map (PointAt.map (· + 2))).map canonical = _
    rw [List.map_cons, List.map_map]
    rfl

end MethodBody

/-- Where a method of a module is after the module was woven, written and read. -/
theorem Module.methodList_of_woven {σ : Type} {digest : Bytes → ImageId} {lookup : Lookup σ} {options : ReadOptions}
    {m found : Module} {e : EmittedModule} {name : String} {s s' : σ} {time : TimeOfDay} {policy : DeadCodePolicy}
    (emitted : (m.weave time policy).1.emit digest = .ok e)
    (read : Module.read lookup options name e.code (CompiledModule.symbols? ⟨name, e.code, e.symbols⟩) s = .ok found s') :
    found.methodList = m.methodList.map fun (t, d) =>
      ((t.weave time policy).reread (m.weaveMarkers time policy).readTexts,
        (d.weave time policy).reread (m.weaveMarkers time policy).readTexts) := by
  obtain ⟨rows, d, b, record?, written⟩ := emittedAs_of_emit emitted
  obtain ⟨plain, types, members, images, -, -, rfl⟩ := ofImages_of_read read
  obtain ⟨rfl, -⟩ := (ofImages_emitted written).mp images
  change (m.weaveMarkers time policy).readTexts.reread.methodList = _
  rw [methodList_reread]
  change (m.weaveMarkers time policy).methodList.map _ = _
  rw [methodList_weaveMarkers, List.map_map]
  rfl

namespace Sample

def rereadWoven (m : Module) : Option Module := do
  let e ← ((m.weave afternoon .preserve).1.emit fun _ => .zero).toOption
  answer? (Module.read (Lookup.ofFunction .ok) { symbolsRequired := false } "a" e.code
    (CompiledModule.symbols? ⟨"a", e.code, e.symbols⟩) ())

/-- The point that covers an instruction of the marker then. -/
def shownIn (m : Module) (index : Nat) : Option (Option SourcePoint) := do
  let (_, d) ← (← rereadWoven m).methodList[0]?
  return PointAt.covering? (← d.body?).points index

theorem rereads_clock : ∃ e, (clock.weave afternoon .preserve).1.emit (fun _ => .zero) = .ok e ∧
    ((answer? (Module.read (Lookup.ofFunction .ok) {} "a" e.code (CompiledModule.symbols? ⟨"a", e.code, e.symbols⟩) ())).any
      fun _ => true) = true := by
  refine Outcome.exists_of_any ?_
  decide +kernel

end Sample

end CilWeaver
