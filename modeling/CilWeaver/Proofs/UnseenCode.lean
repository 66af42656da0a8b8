import CilWeaver.Proofs.PairedRuns
import CilWeaver.Proofs.Resolution
import CilWeaver.Proofs.Weaving

/-!
What a run does not see of a woven module: the code behind the prologue, which no position leads to, and the bodies of
methods that no call leads to.
-/

namespace CilWeaver

open Step FrameAction

/-- The machine knows no other call. -/
theorem OpCode.eq_call {o : OpCode} (known : o.effect? = some .call) : o = .call := by
  have only : ∀ entry ∈ effects, entry.2 = .call → entry.1 = 0x28 := by decide
  have number : o.value.toNat = 0x28 := only _ (lookup_mem known) rfl
  exact congrArg OpCode.mk (UInt16.toNat_inj.mp number)

namespace Instruction

/-- Where an instruction may lead: to the next one, to one of its targets, into the method that it calls, or out of
    its own. -/
inductive Leads (i : Instruction) : Control → Prop
  | next : Leads i .next
  | jump {target : Nat} : target ∈ i.targets → Leads i (.jump target)
  | call {callee : Token} : i.opcode = .call → i.operand = .token callee → Leads i (.call callee)
  | finish (v : Value) : Leads i (.finish v)

/-- Every way that an action takes is one of these. -/
def Takes (ways : Control → Prop) (x : FrameAction Control) : Prop := ∀ f control g, x f = .ok control g → ways control

namespace Takes

variable {α : Type} {ways : Control → Prop}

theorem pure {control : Control} (way : ways control) : Takes ways (Pure.pure control) :=
  fun _ _ _ run => (pure_eq_ok.mp run).1 ▸ way

theorem throw (fault : MethodFault) : Takes ways (MonadExcept.throw fault) := fun _ _ _ run => absurd run throw_ne_ok

/-- The last action decides. -/
theorem bind {x : FrameAction α} {k : α → FrameAction Control} (rest : ∀ a, Takes ways (k a)) : Takes ways (x >>= k) := by
  intro f control g run
  obtain ⟨a, s, -, last⟩ := bind_eq_ok.mp run
  exact rest a s control g last

end Takes

theorem takes_jump (i : Instruction) : Takes i.Leads i.jump := by
  unfold Instruction.jump
  split
  · rename_i target operand
    refine .pure (.jump ?_)
    unfold InstructionAt.targets
    rw [operand]
    exact List.mem_singleton_self target
  · exact .throw _

theorem takes_perform {i : Instruction} {effect : Effect} (known : i.opcode.effect? = some effect) :
    Takes i.Leads (i.perform effect) := by
  have next : Takes i.Leads (return .next) := .pure .next
  cases effect with
  | nothing => exact next
  | constant _ | discard => exact .bind fun _ => next
  | loadArgument _ | loadLocal _ | duplicate | negate | complement | convert _ =>
    exact .bind fun _ => .bind fun _ => .bind fun _ => next
  | compare _ => exact .bind fun _ => .bind fun _ => .bind fun _ => .bind fun _ => next
  | storeArgument | storeLocal _ | arithmetic _ | shift _ =>
    exact .bind fun _ => .bind fun _ => .bind fun _ => .bind fun _ => .bind fun _ => next
  | literal =>
    rw [perform]
    split
    all_goals exact .bind fun _ => next
  | jump => exact i.takes_jump
  | jumpIf truth =>
    refine .bind fun v => ?_
    split
    · exact i.takes_jump
    · exact next
  | jumpWhen c =>
    refine .bind fun b => .bind fun a => .bind fun holds => ?_
    split
    · exact i.takes_jump
    · exact next
  | select =>
    rw [perform]
    split
    · rename_i targets operand
      refine .bind fun v => ?_
      split
      · exact next
      · split
        · exact next
        · split
          · exact next
          · rename_i target found
            refine .pure (.jump ?_)
            unfold InstructionAt.targets
            rw [operand]
            exact List.mem_of_getElem? found
    · exact .throw _
  | call =>
    rw [perform]
    split
    · rename_i callee operand
      exact .pure (.call (OpCode.eq_call known) operand)
    · exact .throw _
  | finish =>
    refine .bind fun f => ?_
    split
    · exact .pure (.finish _)
    · exact .bind fun v => .pure (.finish v)

theorem execute_leads {i : Instruction} {f g : Frame} {control : Control} (run : i.execute f = .ok control g) :
    i.Leads control := by
  unfold execute at run
  cases known : i.opcode.effect? with
  | none =>
    rw [known] at run
    exact absurd run throw_ne_ok
  | some effect =>
    rw [known] at run
    exact takes_perform known f control g run

end Instruction

namespace Module

variable {m : Module}

/-- The code of the first method calls the second one. -/
def Calls (m : Module) (token callee : Token) : Prop :=
  ∃ d b, m.method? token = some d ∧ d.body? = some b ∧
    ∃ i ∈ b.code, i.opcode = .call ∧ i.operand = .token callee ∧ callee.isIn .methodDef = true

/-- Calls lead from the first method to the second one. -/
def Reaches (m : Module) : Token → Token → Prop := Relation.ReflTransGen m.Calls

/-- A token names the woven method where it named the method. -/
theorem method?_weave (m : Module) (time : TimeOfDay) (policy : DeadCodePolicy) (token : Token) :
    (m.weaveMarkers time policy).method? token = (m.method? token).map (MethodDef.weave time policy) := by
  unfold method?
  split
  · rw [methodList_weaveMarkers, ← map_rowOf?, Option.map_map, Option.map_map]
    rfl
  · rfl

end Module

/-- The methods that are reached from one of them, with the code that they have. -/
def reachedPairing (m : Module) (token : Token) : RunPairing where
  Places code position code' position' := code' = code ∧ position' = position ∧
    ∀ i ∈ code, ∀ callee, i.opcode = .call → i.operand = .token callee → callee.isIn .methodDef = true →
      m.Reaches token callee
  Enters callee := callee.isIn .methodDef = true → m.Reaches token callee
  Faults _ _ := False
  Counted := True

theorem lockstep_reached (m : Module) (token : Token) : (reachedPairing m token).Lockstep := by
  intro f f' frames
  obtain ⟨code, position, calls⟩ := frames.places
  have further : f'.position + 1 = f.position + 1 := by rw [position]
  refine frames.acts_of_same_place code position fun i control g here run => ?_
  cases Instruction.execute_leads run with
  | next => exact .next ⟨code, further, calls⟩
  | jump => exact .jump ⟨code, rfl, calls⟩
  | call isCall operand => exact .call (calls i (List.mem_of_getElem? here) _ isCall operand) ⟨code, further, calls⟩
  | finish v => exact .finish v

/-- Where no call leads to a method that is woven, every method that is reached stays as it is. -/
theorem modules_reached {m : Module} {token : Token}
    (apart : ∀ callee, m.Reaches token callee → ∀ d, m.method? callee = some d →
      ¬ (d.name = markerName ∧ d.body?.isSome = true)) (time : TimeOfDay) (policy : DeadCodePolicy) :
    (reachedPairing m token).Modules m (m.weaveMarkers time policy) := by
  intro callee enters
  rw [m.method?_weave]
  cases found : m.method? callee with
  | none => exact .none
  | some d =>
    have listed : callee.isIn .methodDef = true := by
      by_contra other
      unfold Module.method? at found
      rw [if_neg other] at found
      cases found
    have reached := enters listed
    rw [Option.map_some, MethodDef.weave_eq_self (apart callee reached d found)]
    refine .some ⟨rfl, rfl, ?_⟩
    cases body : d.body? with
    | none => exact .none
    | some b =>
      refine .some ⟨rfl, rfl, rfl, fun i member next isCall operand called => ?_⟩
      exact reached.tail ⟨d, b, found, body, i, member, isCall, operand, called⟩

/-- Weaving does not disturb a method from which no call leads to a method that is woven: for all arguments and limits
    it gives the same result after the same number of instructions. -/
theorem Emulator.weaving_unseen {m : Module} {token : Token}
    (apart : ∀ callee, m.Reaches token callee → ∀ d, m.method? callee = some d →
      ¬ (d.name = "_Debug_Weaver" ∧ d.body?.isSome = true)) (time : TimeOfDay) (policy : DeadCodePolicy) (e : Emulator)
    (fuel : Nat) (arguments : List Value) :
    e.invoke (m.weave time policy).1 fuel token arguments = e.invoke m fuel token arguments :=
  RunPairing.invoke_eq (modules_reached apart time policy) (lockstep_reached m token) trivial (fun _ _ => False.elim)
    (fun _ => .refl) e fuel arguments

namespace Sample

/-- A method without parameters that answers a number. -/
def answering (name : String) (code : List Instruction) : MethodDef :=
  { flags := 0x10, implFlags := 0, name, signature := [0, 0, 8], params := [], body? := some { code } }

def seventh : MethodDef := answering "Seven" [.ldcI4 7, .ret]

/-- Calls the method in the third row. -/
def relay : MethodDef := answering "Relay" [⟨.call, .token (.ofRow .methodDef 3)⟩, .ret]

/-- A marker, and beside it two methods that do without it. -/
def neighbours : Module :=
  { name := "m"
    types := [{ flags := 0, namespaceName := "", name := "T", baseType := .null, fields := []
                methods := [marker (some { code := [.ret] }), relay, seventh] }] }

theorem reached_neighbours {callee : Token} (reached : neighbours.Reaches (.ofRow .methodDef 2) callee) :
    callee = .ofRow .methodDef 2 ∨ callee = .ofRow .methodDef 3 := by
  -- one call leads from the second row to the third, and none from there
  induction reached with
  | refl => exact .inl rfl
  | tail _ calls ih =>
    obtain ⟨d, b, found, body, i, member, isCall, operand, -⟩ := calls
    rcases ih with rfl | rfl
    · cases (found : some relay = some d)
      cases body
      rcases List.mem_pair.mp member with rfl | rfl
      · cases operand
        exact .inr rfl
      · cases isCall
    · cases (found : some seventh = some d)
      cases body
      rcases List.mem_pair.mp member with rfl | rfl
      · cases isCall
      · cases isCall

end Sample

theorem Emulator.weaving_unseen_sample :
    invoke {} (Sample.neighbours.weave .midnight .strip).1 5 (.ofRow .methodDef 2) [] = some (.ok (.int32 7), ⟨{}, 4⟩) := by
  have apart : ∀ callee, Sample.neighbours.Reaches (.ofRow .methodDef 2) callee →
      ∀ d, Sample.neighbours.method? callee = some d → ¬ (d.name = "_Debug_Weaver" ∧ d.body?.isSome = true) := by
    intro callee reached d found
    rcases Sample.reached_neighbours reached with rfl | rfl
    · cases (found : some Sample.relay = some d)
      decide
    · cases (found : some Sample.seventh = some d)
      decide
  rw [weaving_unseen apart]
  decide +kernel

/-! The prologue and what may stand behind it. -/

/-- The same place in the same code, or in prologues for one time. -/
def prologuePairing (time : TimeOfDay) : RunPairing where
  Places code position code' position' := position' = position ∧
    (code' = code ∨ position ≤ 1 ∧ ∃ rest rest', code = prologue time ++ rest ∧ code' = prologue time ++ rest')
  Enters _ := True
  Faults _ _ := False
  Counted := True

/-- A return leads out of its method. -/
theorem Instruction.execute_ret {f g : Frame} {control : Control} (run : Instruction.ret.execute f = .ok control g) :
    ∃ v, control = .finish v := by
  have finishes : Takes (fun control => ∃ v, control = .finish v) (Instruction.ret.perform .finish) := by
    refine .bind fun f => ?_
    split
    · exact .pure ⟨_, rfl⟩
    · exact .bind fun v => .pure ⟨v, rfl⟩
  exact finishes f control g run

theorem lockstep_prologue (time : TimeOfDay) : (prologuePairing time).Lockstep := by
  intro f f' frames
  obtain ⟨position, code | ⟨early, rest, rest', code, code'⟩⟩ := frames.places
  · have further : f'.position + 1 = f.position + 1 := by rw [position]
    refine frames.acts_of_same_place code position fun i control g here run => ?_
    cases control with
    | next => exact .next ⟨further, .inl code⟩
    | jump target => exact .jump ⟨rfl, .inl code⟩
    | call callee => exact .call trivial ⟨further, .inl code⟩
    | finish v => exact .finish v
  · have starts : f.position = 0 ∨ f.position = 1 := by omega
    rcases starts with start | start
    · have here : f.code[f.position]? = some (.ldcI4 time.constant) := by
        rw [code, start]
        rfl
      have here' : f'.code[f'.position]? = some (.ldcI4 time.constant) := by
        rw [code', position, start]
        rfl
      refine frames.acts_of_same here here' rfl fun control g run => ?_
      cases run
      exact .next ⟨by rw [position], .inr ⟨by rw [start], rest, rest', code, code'⟩⟩
    · have here : f.code[f.position]? = some .ret := by
        rw [code, start]
        rfl
      have here' : f'.code[f'.position]? = some .ret := by
        rw [code', position, start]
        rfl
      refine frames.acts_of_same here here' rfl fun control g run => ?_
      obtain ⟨v, rfl⟩ := Instruction.execute_ret run
      exact .finish v

theorem modules_policies (m : Module) (time : TimeOfDay) :
    (prologuePairing time).Modules (m.weaveMarkers time .preserve) (m.weaveMarkers time .strip) := by
  intro token _
  rw [m.method?_weave, m.method?_weave]
  cases m.method? token with
  | none => exact .none
  | some d =>
    rw [Option.map_some, Option.map_some, d.weave_eq, d.weave_eq]
    refine .some ?_
    by_cases marker : d.name = markerName
    · rw [if_pos marker, if_pos marker]
      refine ⟨rfl, rfl, ?_⟩
      cases d.body? with
      | none => exact .none
      | some b => exact .some ⟨rfl, rfl, .inr ⟨Nat.zero_le 1, _, [], rfl, rfl⟩⟩
    · rw [if_neg marker, if_neg marker]
      refine ⟨rfl, rfl, ?_⟩
      cases d.body? with
      | none => exact .none
      | some b => exact .some ⟨rfl, rfl, .inl rfl⟩

/-- What happens to the code behind the prologue cannot be observed: for all methods, arguments and limits both policies
    give the same result after the same number of instructions. -/
theorem Emulator.policy_unseen (m : Module) (time : TimeOfDay) (e : Emulator) (fuel : Nat) (token : Token)
    (arguments : List Value) :
    e.invoke (m.weave time .strip).1 fuel token arguments = e.invoke (m.weave time .preserve).1 fuel token arguments :=
  RunPairing.invoke_eq (modules_policies m time) (lockstep_prologue time) trivial (fun _ _ => False.elim) trivial e fuel
    arguments

end CilWeaver
