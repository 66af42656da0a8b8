import CilWeaver.Machine.Emulator
import CilWeaver.Proofs.ReadModules
import CilWeaver.Proofs.Rewriting

/-!
Running what was woven: a module that was read, woven and written can be read again, and its woven
methods answer the time.
-/

namespace CilWeaver

open Code Step

namespace Emulator

variable {m : Module} {token : Token} {method : MethodDef} {b : MethodBody} {signature : MethodSig}

/-- A call that a signature asks for enters the method. -/
theorem enter_eq (found : m.method? token = some method) (body : method.body? = some b)
    (parsed : Signature.parseMethod method.signature = .ok signature) (static : signature.hasThis = false)
    (returns : signature.returns ≠ .primitive .void)
    (initial : ∀ type ∈ b.locals, ∃ v, type.initialValue = .ok v) {limits : MachineLimits} (deep : 1 ≤ limits.depth)
    {arguments : List Value} (count : arguments.length = signature.parameters.length) :
    ∃ name locals, m.enter limits token arguments 0 = .ok ⟨name, b.code, false, arguments, locals, [], 0⟩ := by
  obtain ⟨locals, values⟩ : ∃ locals, b.locals.mapM (·.initialValue) = .ok locals := by
    generalize b.locals = types at initial
    induction types with
    | nil => exact ⟨[], rfl⟩
    | cons type types ih =>
      obtain ⟨v, first⟩ := initial type List.mem_cons_self
      obtain ⟨locals, others⟩ := ih fun other member => initial other (List.mem_cons_of_mem _ member)
      refine ⟨v :: locals, ?_⟩
      rw [List.mapM_cons, first, Outcome.ok_bind, others]
      rfl
  have shallow : ¬ limits.depth ≤ 0 := by omega
  have value : (signature.returns == .primitive .void) = false := by simpa using returns
  unfold Module.enter
  simp only [shallow, ↓reduceIte, found, parsed, Outcome.ok_bind, static, Bool.false_eq_true, count, ne_eq,
    not_true_eq_false, body, values, value]
  exact ⟨_, locals, rfl⟩

theorem execute_ldcI4 (n : Int32) (frame : Frame) :
    (Instruction.ldcI4 n).execute frame = .ok .next { frame with stack := .int32 n :: frame.stack } := rfl

theorem execute_ret {frame : Frame} {v : Value} {stack : List Value} (value : frame.returnsVoid = false)
    (top : frame.stack = v :: stack) : Instruction.ret.execute frame = .ok (.finish v) { frame with stack } := by
  obtain ⟨name, code, returnsVoid, arguments, locals, own, position⟩ := frame
  cases value
  cases top
  rfl

/-- The prologue answers its constant, whatever stands behind it. -/
theorem invoke_prologue (found : m.method? token = some method) (body : method.body? = some b)
    {time : TimeOfDay} {rest : List Instruction} (code : b.code = prologue time ++ rest)
    (parsed : Signature.parseMethod method.signature = .ok signature) (static : signature.hasThis = false)
    (returns : signature.returns ≠ .primitive .void)
    (initial : ∀ type ∈ b.locals, ∃ v, type.initialValue = .ok v) {e : Emulator} (deep : 1 ≤ e.limits.depth)
    (budget : e.limits.instructions = 0 ∨ e.executed + 2 ≤ e.limits.instructions)
    {arguments : List Value} (count : arguments.length = signature.parameters.length) {fuel : Nat} (enough : 2 ≤ fuel) :
    e.invoke m fuel token arguments = some (.ok (.int32 time.constant), { e with executed := e.executed + 2 }) := by
  obtain ⟨name, locals, entered⟩ := enter_eq found body parsed static returns initial deep count
  obtain ⟨more, rfl⟩ := Nat.exists_eq_add_of_le' enough
  have first : ¬ (0 < e.limits.instructions ∧ e.limits.instructions < e.executed + 1) := by omega
  have second : ¬ (0 < e.limits.instructions ∧ e.limits.instructions < e.executed + 1 + 1) := by omega
  have fetchConstant : b.code[0]? = some (.ldcI4 time.constant) := by
    rw [code]
    rfl
  have fetchReturn : b.code[1]? = some .ret := by
    rw [code]
    rfl
  have constant : Machine.step m e.limits ⟨e.executed, ⟨name, b.code, false, arguments, locals, [], 0⟩, []⟩ =
      .running ⟨e.executed + 1, ⟨name, b.code, false, arguments, locals, [.int32 time.constant], 1⟩, []⟩ := by
    unfold Machine.step
    simp only [fetchConstant, first, ↓reduceIte, execute_ldcI4]
    rfl
  have finish : Machine.step m e.limits
      ⟨e.executed + 1, ⟨name, b.code, false, arguments, locals, [.int32 time.constant], 1⟩, []⟩ =
        .ended (.ok (.int32 time.constant)) (e.executed + 2) := by
    unfold Machine.step
    simp only [fetchReturn, second, ↓reduceIte]
    rw [execute_ret rfl rfl]
    rfl
  unfold Emulator.invoke Progress.start
  rw [entered]
  dsimp only
  rw [Progress.run, constant, Progress.run, finish, Progress.run]
  rfl

end Emulator

/-- The prologue has no branch that could be promoted. -/
theorem Code.promote_prologue (time : TimeOfDay) (code : List Instruction) :
    ∃ rest, promote (prologue time ++ code) = prologue time ++ rest := by
  have widened := widened_promote (prologue time ++ code)
  obtain ⟨first, others, one, more, shape⟩ := List.forall₂_cons_left_iff.mp widened
  obtain ⟨second, rest, two, -, shape'⟩ := List.forall₂_cons_left_iff.mp more
  refine ⟨rest, ?_⟩
  rw [shape, shape']
  rcases one with rfl | ⟨short, -⟩
  · rcases two with rfl | ⟨short, -⟩
    · rfl
    · cases short
  · cases short

namespace Module

variable {m : Module} {time : TimeOfDay} {policy : DeadCodePolicy} {maxBodySize : Nat}

/-- Weaving leaves all names as they are. -/
theorem sameNames_weaveMarkers (m : Module) (time : TimeOfDay) (policy : DeadCodePolicy) :
    (m.weaveMarkers time policy).SameNames m := by
  refine ⟨rfl, rfl, rfl, ?_⟩
  change (m.types.map (TypeDef.weave time policy)).map TypeDef.fullName = _
  rw [List.map_map]
  rfl

theorem rows_weaveMarkers (m : Module) (time : TimeOfDay) (policy : DeadCodePolicy) (t : Table) :
    (m.weaveMarkers time policy).rows t = m.rows t := by
  have types : (m.weaveMarkers time policy).types = m.types.map (TypeDef.weave time policy) := rfl
  have methods : ((m.weaveMarkers time policy).types.map (·.methods.length)).sum = (m.types.map (·.methods.length)).sum := by
    rw [types, List.map_map]
    simp only [Function.comp_def, TypeDef.weave, List.length_map]
  cases t with
  | typeDef =>
    unfold Module.rows
    rw [types, List.length_map]
  | field =>
    unfold Module.rows
    rw [types, List.map_map]
    rfl
  | methodDef => exact methods
  | methodDebugInformation =>
    unfold Module.rows
    rw [methods]
    rfl
  | param =>
    have params : ∀ d : MethodDef, (d.weave time policy).params = d.params := by
      intro d
      rw [d.weave_eq]
      split <;> rfl
    unfold Module.rows
    rw [methodList_weaveMarkers, List.map_map]
    simp only [Function.comp_def, params]
  | _ => rfl

/-- A module that was read can be read again when it was woven and written. -/
theorem readable_weaveMarkers (accepted : m.Accepted maxBodySize) (reach : maxBodySize < 2 ^ 31)
    (room : ∀ t ∈ m.types, ∀ d ∈ t.methods, d.name = markerName →
      d.AllBodies fun b => codeSize b.code + 6 ≤ maxBodySize)
    {rows : ModuleRows} {draft : ModuleDraft} {builder : TableStreamBuilder}
    (written : Written (m.weaveMarkers time policy) rows draft builder) :
    (m.weaveMarkers time policy).Readable maxBodySize := by
  refine ⟨fun t allowed => ?_, fun _ => accepted.documents, fun t' typeMember' d' member' b' shape' => ?_⟩
  · rw [rows_weaveMarkers]
    exact accepted.rows t allowed
  · have checked := checked_of_written written _ typeMember' _ member' b' shape'
    obtain ⟨t, typeMember, rfl⟩ := List.mem_map.mp typeMember'
    obtain ⟨d, member, rfl⟩ := List.mem_map.mp member'
    have kept : b'.Accepted m maxBodySize := by
      rw [d.weave_eq] at shape'
      by_cases marker : d.name = markerName
      · rw [if_pos marker] at shape'
        obtain ⟨b, body, rfl⟩ := Option.map_eq_some_iff.mp shape'
        have own := accepted.bodies t typeMember d member b body
        exact own.woven (room t typeMember d member marker b body) time policy
      · rw [if_neg marker] at shape'
        exact accepted.bodies t typeMember d member b' shape'
    have again : b'.Accepted (m.weaveMarkers time policy) maxBodySize :=
      ⟨kept.size, kept.settled, kept.operands, kept.catches, kept.locals⟩
    exact again.readable checked reach

/-- A woven method that is read again is found under the token that was reported, and starts with the prologue. -/
theorem woven_method {types members : List (Option Symbol)} {w : WovenMethod} (listed : w ∈ m.markers true)
    (few : m.methodList.length < 2 ^ 24) :
    ∃ d b rest, ((m.weaveMarkers time policy).reread.withDefinitions types members).method? w.token = some d ∧
      d.name = markerName ∧ d.body? = some b ∧ b.code = prologue time ++ rest := by
  obtain ⟨index, t, d, found, marker, isSome, rfl⟩ := mem_markers.mp listed
  obtain ⟨b, body⟩ := Option.isSome_iff_exists.mp isSome
  obtain ⟨inside, -⟩ := List.getElem?_eq_some_iff.mp found
  have methods : ((m.weaveMarkers time policy).reread.withDefinitions types members).methodList =
      m.methodList.map fun listed => ((listed.1.weave time policy).reread (m.weaveMarkers time policy),
        (listed.2.weave time policy).reread (m.weaveMarkers time policy)) := by
    change (m.weaveMarkers time policy).reread.methodList = _
    rw [methodList_reread, methodList_weaveMarkers, List.map_map]
    rfl
  have count : ((m.weaveMarkers time policy).reread.withDefinitions types members).methodList.length =
      m.methodList.length := by
    rw [methods, List.length_map]
  have woven : d.weave time policy = { d with body? := some (b.woven time policy) } := by
    rw [d.weave_eq, if_pos marker, body]
    rfl
  obtain ⟨rest, code⟩ : ∃ rest, promote (b.woven time policy).code = prologue time ++ rest := by
    cases policy with
    | preserve => exact promote_prologue time _
    | strip => exact promote_prologue time []
  refine ⟨(d.weave time policy).reread (m.weaveMarkers time policy), (b.woven time policy).reread (m.weaveMarkers time policy),
    rest, ?_, ?_, ?_, code⟩
  · rw [method?_ofRow (by omega) (by omega), methods, List.getElem?_map, found]
    rfl
  · rw [woven]
    exact marker
  · rw [woven]
    rfl

end Module

namespace Sample

/-- A module whose marker has a branch, a local and points. -/
def clock : Module :=
  { linked with
    types := [{ flags := 0, namespaceName := "", name := "Clock", baseType := .ofRow .typeRef 1, fields := []
                methods := [marker (some branching)] }] }

def clockInput : CompiledModule :=
  let images := (clock.emit fun _ => .zero).toOption.getD ⟨[], []⟩
  ⟨"a", images.code, images.symbols⟩

/-- A quarter past one. -/
def afternoon : TimeOfDay := ⟨47700, by decide⟩

def weaveClock : EStateM.Result Error Unit WovenModule :=
  clockInput.weave (fun _ => .zero) (Lookup.ofFunction .ok) afternoon .preserve ()

/-- Reads what was woven. -/
def rereadClock (out : WovenModule) : EStateM.Result Error Unit Module :=
  Module.read (Lookup.ofFunction .ok) {} "a" out.images.code
    (CompiledModule.symbols? ⟨"a", out.images.code, out.images.symbols⟩) ()

/-- Whether the marker is reported and has a signature without parameters and one local. -/
def reportsClock (out : WovenModule) (found : Module) : Bool :=
  out.report.methods == [⟨"Clock", "_Debug_Weaver", .ofRow .methodDef 1⟩] &&
    (found.method? (.ofRow .methodDef 1)).any fun d =>
      d.signature == [0, 0, 8] && d.body?.all (·.locals == [.primitive .int32])

theorem reads_clock : ∃ m, Module.read (Lookup.ofFunction .ok) {} clockInput.name clockInput.code clockInput.symbols? () =
    .ok m () ∧ (m.types.all fun t => t.methods.all fun d => d.body?.all fun b => codeSize b.code ≤ 10) = true := by
  refine exists_of_any ?_
  decide +kernel

theorem weaves_clock : ∃ out, weaveClock = .ok out () ∧ ((answer? (rereadClock out)).any (reportsClock out)) = true := by
  refine exists_of_any ?_
  decide +kernel

end Sample

end CilWeaver
