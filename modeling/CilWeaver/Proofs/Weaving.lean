import CilWeaver.Proofs.Rows
import CilWeaver.Weave.Pipeline

/-!
What weaving does to a module: it replaces the bodies of marker methods and nothing else, and its report
lists these methods in the order of their rows.
-/

namespace CilWeaver

open Step

namespace MethodBody

/-- The hidden point of the prologue, in the document that the body starts in. -/
def openingPoint? (s : BodySymbols) : Option SourcePoint := s.points.head?.map fun p => .hidden 0 p.document

/-- What a body becomes that answers a time. -/
def woven (time : TimeOfDay) : DeadCodePolicy → MethodBody → MethodBody
  | .preserve, b =>
    { b with
      code := prologue time ++ b.code.map (InstructionAt.map (· + 2))
      regions := b.regions.map (Region.map (· + 2))
      symbols? := b.symbols?.map fun s =>
        { s with points := (openingPoint? s).toList ++ s.points.map (PointAt.map (· + 2)) } }
  | .strip, b =>
    { b with
      code := prologue time
      regions := []
      symbols? := b.symbols?.bind fun s => (openingPoint? s).map fun p => { s with points := [p] } }

variable (time : TimeOfDay) (b : MethodBody)

theorem shift_prologue : shift 0 (prologue time).length = (· + 2) := by
  funext index
  exact if_pos (Nat.zero_le index)

/-- Weaving never fails to move a body. -/
theorem prepend_prologue : b.prepend (prologue time) = .ok { b with
    code := prologue time ++ b.code.map (InstructionAt.map (· + 2))
    regions := b.regions.map (Region.map (· + 2))
    symbols? := b.symbols?.map (BodySymbols.map (· + 2)) } := by
  unfold prepend insert
  rw [if_neg (Nat.not_lt_zero _), shift_prologue]
  rfl

theorem weave_eq_woven (policy : DeadCodePolicy) : b.weave time policy = b.woven time policy := by
  obtain ⟨code, maxStack, initLocals, localSignature, locals, regions, symbols?⟩ := b
  cases policy with
  | preserve =>
    change weavePreserving time _ = _
    unfold weavePreserving
    dsimp only
    rw [shift_prologue]
    rcases symbols? with _ | ⟨signature, _ | ⟨p, points⟩⟩
    · rfl
    · rfl
    · rfl
  | strip =>
    rcases symbols? with _ | ⟨signature, _ | ⟨p, points⟩⟩
    · rfl
    · rfl
    · rfl

end MethodBody

namespace MethodDef

/-- Only marker methods change, and only in their body. -/
theorem weave_eq (time : TimeOfDay) (policy : DeadCodePolicy) (d : MethodDef) :
    d.weave time policy =
      if d.name = markerName then { d with body? := d.body?.map (MethodBody.woven time policy) } else d := by
  have bodies : MethodBody.weave time policy = MethodBody.woven time policy := by
    funext b
    exact b.weave_eq_woven time policy
  unfold MethodDef.weave MethodDef.isMarker
  rw [bodies]
  by_cases marker : d.name = markerName
  · rw [if_pos (beq_iff_eq.mpr marker), if_pos marker]
  · rw [if_neg (fun h => marker (beq_iff_eq.mp h)), if_neg marker]

/-- A method that is not a marker or has no body stays as it is. -/
theorem weave_eq_self {d : MethodDef} (apart : ¬ (d.name = markerName ∧ d.body?.isSome = true)) (time : TimeOfDay)
    (policy : DeadCodePolicy) : d.weave time policy = d := by
  rw [d.weave_eq]
  by_cases marker : d.name = markerName
  · rw [if_pos marker]
    cases shape : d.body? with
    | none => rw [Option.map_none, ← shape]
    | some b => exact absurd ⟨marker, Option.isSome_iff_exists.mpr ⟨b, shape⟩⟩ apart
  · exact if_neg marker

end MethodDef

def TypeDef.weave (time : TimeOfDay) (policy : DeadCodePolicy) (t : TypeDef) : TypeDef :=
  { t with methods := t.methods.map (MethodDef.weave time policy) }

namespace Module

/-- The methods of a module whose types were changed one by one. -/
theorem methodList_map {m m' : Module} {g : TypeDef → TypeDef} {h : MethodDef → MethodDef}
    (types : m'.types = m.types.map g) (methods : ∀ t, (g t).methods = t.methods.map h) :
    m'.methodList = m.methodList.map fun (t, d) => (g t, h d) := by
  unfold Module.methodList
  rw [types, List.flatMap_map, List.map_flatMap]
  refine List.flatMap_congr fun t _ => ?_
  rw [methods, List.map_map, List.map_map]
  rfl

variable {m : Module}

/-- A token names the method at its row. -/
theorem method?_ofRow (few : m.methodList.length < 2 ^ 24) {index : Nat} (inside : index < m.methodList.length) :
    m.method? (.ofRow .methodDef (index + 1)) = (m.methodList[index]?).map (·.2) := by
  have row : (Token.ofRow .methodDef (index + 1)).row = index + 1 := by
    rw [Token.row_ofRow, Nat.mod_eq_of_lt (by omega)]
  have table : (Token.ofRow .methodDef (index + 1)).isIn .methodDef = true := by
    rw [Token.isIn, Token.tableNumber_ofRow]
    exact beq_self_eq_true _
  unfold Module.method?
  rw [if_pos table, row]
  rfl

/-- The tokens of all methods ascend. -/
theorem pairwise_methods (few : m.methodList.length < 2 ^ 24) :
    m.methods.Pairwise fun a b => a.1.row < b.1.row := by
  unfold Module.methods
  rw [List.pairwise_map, List.pairwise_iff_getElem]
  intro i j first second order
  rw [List.length_zipIdx] at first second
  simp only [List.getElem_zipIdx, Nat.zero_add, Token.row_ofRow]
  rw [Nat.mod_eq_of_lt (by omega), Nat.mod_eq_of_lt (by omega)]
  omega

/-- The listed markers have ascending tokens, so that none is listed twice. -/
theorem pairwise_markers (few : m.methodList.length < 2 ^ 24) (withBody : Bool) :
    (m.markers withBody).Pairwise fun a b => a.token.row < b.token.row := by
  unfold Module.markers
  rw [List.pairwise_map]
  exact (pairwise_methods few).filter _

theorem mem_methods {token : Token} {t : TypeDef} {d : MethodDef} :
    (token, t, d) ∈ m.methods ↔ ∃ index, m.methodList[index]? = some (t, d) ∧ token = .ofRow .methodDef (index + 1) := by
  unfold Module.methods
  rw [List.mem_map]
  constructor
  · rintro ⟨⟨method, index⟩, member, same⟩
    cases same
    exact ⟨index, List.mem_zipIdx_iff_getElem?.mp member, rfl⟩
  · rintro ⟨index, found, rfl⟩
    exact ⟨((t, d), index), List.mem_zipIdx_iff_getElem?.mpr found, rfl⟩

/-- What is listed: each marker with or without a body, under its names and its token. -/
theorem mem_markers {w : WovenMethod} {withBody : Bool} :
    w ∈ m.markers withBody ↔ ∃ index t d, m.methodList[index]? = some (t, d) ∧ d.name = markerName ∧
      d.body?.isSome = withBody ∧ w = ⟨t.fullName, d.name, .ofRow .methodDef (index + 1)⟩ := by
  unfold Module.markers
  rw [List.mem_map]
  constructor
  · rintro ⟨⟨token, t, d⟩, member, rfl⟩
    obtain ⟨among, kind⟩ := List.mem_filter.mp member
    obtain ⟨index, found, rfl⟩ := mem_methods.mp among
    simp only [Bool.and_eq_true, MethodDef.isMarker, beq_iff_eq] at kind
    exact ⟨index, t, d, found, kind.1, kind.2, rfl⟩
  · rintro ⟨index, t, d, found, marker, body, rfl⟩
    refine ⟨(.ofRow .methodDef (index + 1), t, d),
      List.mem_filter.mpr ⟨mem_methods.mpr ⟨index, found, rfl⟩, ?_⟩, rfl⟩
    simp only [Bool.and_eq_true, MethodDef.isMarker, beq_iff_eq]
    exact ⟨marker, body⟩

theorem methodList_weaveMarkers (m : Module) (time : TimeOfDay) (policy : DeadCodePolicy) :
    (m.weaveMarkers time policy).methodList = m.methodList.map fun (t, d) =>
      (t.weave time policy, d.weave time policy) :=
  methodList_map rfl fun _ => rfl

/-- A token names the woven method where it named the method. -/
theorem method?_weaveMarkers (few : m.methodList.length < 2 ^ 24) {index : Nat} {t : TypeDef} {d : MethodDef}
    (found : m.methodList[index]? = some (t, d)) (time : TimeOfDay) (policy : DeadCodePolicy) :
    m.method? (.ofRow .methodDef (index + 1)) = some d ∧
      (m.weaveMarkers time policy).method? (.ofRow .methodDef (index + 1)) = some (d.weave time policy) := by
  obtain ⟨inside, -⟩ := List.getElem?_eq_some_iff.mp found
  have count : (m.weaveMarkers time policy).methodList.length = m.methodList.length := by
    rw [methodList_weaveMarkers, List.length_map]
  rw [method?_ofRow few inside, method?_ofRow (by omega) (by omega), methodList_weaveMarkers, List.getElem?_map, found]
  exact ⟨rfl, rfl⟩

/-- Whether a method of the module is woven. -/
def HasMarkers (m : Module) : Prop :=
  ∃ t ∈ m.types, ∃ d ∈ t.methods, d.name = markerName ∧ d.body?.isSome = true

theorem weaveMarkers_eq_self (none : ¬ m.HasMarkers) (time : TimeOfDay) (policy : DeadCodePolicy) :
    m.weaveMarkers time policy = m := by
  have types : m.types.map (TypeDef.weave time policy) = m.types := by
    refine (List.map_congr_left fun t typeMember => ?_).trans (List.map_id _)
    have methods : t.methods.map (MethodDef.weave time policy) = t.methods := by
      refine (List.map_congr_left fun d member => ?_).trans (List.map_id _)
      exact MethodDef.weave_eq_self (fun woven => none ⟨t, typeMember, d, member, woven⟩) time policy
    unfold TypeDef.weave
    rw [methods]
    rfl
  change { m with types := m.types.map (TypeDef.weave time policy) } = m
  rw [types]

theorem markers_eq_nil (none : ¬ m.HasMarkers) : m.markers true = [] := by
  refine List.eq_nil_iff_forall_not_mem.mpr fun w listed => none ?_
  obtain ⟨index, t, d, found, marker, body, -⟩ := mem_markers.mp listed
  obtain ⟨typeMember, member⟩ : t ∈ m.types ∧ d ∈ t.methods := by
    obtain ⟨t', typeMember, h⟩ := List.mem_flatMap.mp (List.mem_of_getElem? found)
    obtain ⟨d', member, same⟩ := List.mem_map.mp h
    cases same
    exact ⟨typeMember, member⟩
  exact ⟨t, typeMember, d, member, marker, body⟩

end Module

/-- A module is woven if it is read and if its woven form is written. -/
theorem CompiledModule.weave_eq_ok {σ : Type} {digest : Bytes → ImageId} {lookup : Lookup σ} {time : TimeOfDay}
    {policy : DeadCodePolicy} {input : CompiledModule} {out : WovenModule} {s s' : σ} :
    input.weave digest lookup time policy s = .ok out s' ↔
      ∃ m, Module.read lookup {} input.name input.code input.symbols? s = .ok m s' ∧
        (m.weaveMarkers time policy).emit digest = .ok out.images ∧ out.report = m.weaveReport time := by
  unfold CompiledModule.weave
  rw [bind_eq_ok]
  constructor
  · rintro ⟨m, s₁, read, h⟩
    unfold Module.weave at h
    dsimp only at h
    cases emitted : (m.weaveMarkers time policy).emit digest with
    | ok images =>
      simp only [emitted] at h
      obtain ⟨rfl, rfl⟩ := pure_eq_ok.mp h
      exact ⟨m, read, emitted, rfl⟩
    | error e =>
      simp only [emitted] at h
      exact absurd h throw_ne_ok
  · rintro ⟨m, read, emitted, report⟩
    refine ⟨m, s', read, ?_⟩
    unfold Module.weave
    dsimp only
    rw [emitted]
    exact pure_eq_ok.mpr ⟨by rw [← report], rfl⟩

theorem TimeOfDay.toInt_constant (time : TimeOfDay) : time.constant.toInt = time.seconds :=
  Int32.toInt_ofNat_of_lt (Nat.lt_trans time.seconds_lt (by decide))

namespace Module

end Module

namespace Sample

def marker (body? : Option MethodBody) : MethodDef :=
  { flags := 0x10, implFlags := 0, name := "_Debug_Weaver", signature := [0, 0, 8], params := [], body? }

/-- A module with a marker method to weave and one without a body. -/
def markers : Module :=
  { name := "m"
    types := [{ flags := 0, namespaceName := "", name := "T", baseType := .null, fields := []
                methods := [marker (some { code := [.ret] }), marker none] }] }

end Sample

end CilWeaver
