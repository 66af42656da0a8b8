import CilWeaver.Machine.Emulator
import CilWeaver.Proofs.Frames
import CilWeaver.Proofs.Resolution

/-!
Runs of two modules side by side. The code of their methods may differ, as long as places in it go together: what
stands at two such places does the same to the values of a frame, and leads to places that go together again. Then
the runs take the same way, and end with results that go together.
-/

namespace CilWeaver

/-- What goes together in the runs of two modules. -/
structure RunPairing where
  /-- Two positions, each in the code that it stands behind. -/
  Places : List Instruction → Nat → List Instruction → Nat → Prop
  /-- The tokens of the methods that may be entered. -/
  Enters : Token → Prop
  Faults : MethodFault → MethodFault → Prop
  /-- Whether both runs count the same number of instructions. -/
  Counted : Prop

namespace RunPairing

variable (p : RunPairing)

/-- The same values at places that go together. -/
structure Frames (f f' : Frame) : Prop where
  places : p.Places f.code f.position f'.code f'.position
  values : f' = f.place f'.code f'.position

structure Machines (s s' : Machine) : Prop where
  executed : p.Counted → s'.executed = s.executed
  frame : p.Frames s.frame s'.frame
  callers : List.Forall₂ p.Frames s.callers s'.callers

/-- The same failure, or faults of one method that go together. -/
inductive Errors : Error → Error → Prop
  | same (e : Error) : Errors e e
  | fault (name : String) {fault fault' : MethodFault} : p.Faults fault fault' →
    Errors (.machine (.inMethod name fault)) (.machine (.inMethod name fault'))

inductive Results : Result Value → Result Value → Prop
  | answer (v : Value) : Results (.ok v) (.ok v)
  | failure {e e' : Error} : p.Errors e e' → Results (.error e) (.error e')

inductive Progresses : Progress → Progress → Prop
  | running {s s' : Machine} : p.Machines s s' → Progresses (.running s) (.running s')
  | ended {r r' : Result Value} {executed executed' : Nat} : p.Results r r' → (p.Counted → executed' = executed) →
    Progresses (.ended r executed) (.ended r' executed')

/-- Methods that are entered alike, with code that goes together from the start on. -/
structure Methods (d d' : MethodDef) : Prop where
  name : d'.name = d.name
  signature : d'.signature = d.signature
  body : Option.Rel (fun b b' => b'.locals = b.locals ∧ p.Places b.code 0 b'.code 0) d.body? d'.body?

def Modules (m m' : Module) : Prop :=
  ∀ token, p.Enters token → Option.Rel p.Methods (m.method? token) (m'.method? token)

/-- Two ways to go on, from two places. -/
inductive Controls (code : List Instruction) (position : Nat) (code' : List Instruction) (position' : Nat) :
    Control → Control → Prop
  | next : p.Places code (position + 1) code' (position' + 1) → Controls code position code' position' .next .next
  | jump {target target' : Nat} : p.Places code target code' target' →
    Controls code position code' position' (.jump target) (.jump target')
  | call {callee : Token} : p.Enters callee → p.Places code (position + 1) code' (position' + 1) →
    Controls code position code' position' (.call callee) (.call callee)
  | finish (v : Value) : Controls code position code' position' (.finish v) (.finish v)

/-- What two frames do next: both have no instruction, or both have a fault, or both change their values in the same
    way and go on. -/
inductive Acts (f f' : Frame) : Prop
  | off : f.code[f.position]? = none → f'.code[f'.position]? = none →
    p.Errors (.machine (.inMethod f.name (.offTheEnd f.position))) (.machine (.inMethod f.name (.offTheEnd f'.position))) →
    Acts f f'
  | fault {i i' : Instruction} {fault fault' : MethodFault} {g g' : Frame} : f.code[f.position]? = some i →
    f'.code[f'.position]? = some i' → i.execute f = .error fault g → i'.execute f' = .error fault' g' →
    p.Errors (.machine (.inMethod f.name fault)) (.machine (.inMethod f.name fault')) → Acts f f'
  | goes {i i' : Instruction} {control control' : Control} {g : Frame} : f.code[f.position]? = some i →
    f'.code[f'.position]? = some i' → i.execute f = .ok control g →
    i'.execute f' = .ok control' (g.place f'.code f'.position) →
    p.Controls f.code f.position f'.code f'.position control control' → Acts f f'

end RunPairing

/-- A way to go on, with another target where it has one. -/
def Control.map (h : Nat → Nat) : Control → Control
  | jump target => jump (h target)
  | c => c

theorem Control.map_id (c : Control) : c.map id = c := by
  cases c <;> rfl

namespace RunPairing

variable {p : RunPairing}

namespace Frames

variable {f f' : Frame} (frames : p.Frames f f')

include frames

theorem name : f'.name = f.name := by rw [frames.values, Frame.place]

/-- Frames that go on at other places. -/
theorem moveTo {position position' : Nat} (places : p.Places f.code position f'.code position') :
    p.Frames { f with position } { f' with position := position' } := by
  refine ⟨places, ?_⟩
  rw [frames.values]
  rfl

theorem resume (v : Value) : p.Frames (f.resume v) (f'.resume v) := by
  unfold Frame.resume
  split
  · exact frames
  · refine ⟨frames.places, ?_⟩
    rw [frames.values]
    rfl

/-- One instruction that does what another one does, but for its targets. -/
theorem acts_of_map {i i' : Instruction} {h : Nat → Nat} (here : f.code[f.position]? = some i)
    (here' : f'.code[f'.position]? = some i') (same : i'.execute = Control.map h <$> i.execute)
    (controls : ∀ control g, i.execute f = .ok control g →
      p.Controls f.code f.position f'.code f'.position control (control.map h)) : p.Acts f f' := by
  have run' : i'.execute f' = (Control.map h <$> i.execute) (f.place f'.code f'.position) := by rw [same, ← frames.values]
  rw [Step.map_apply] at run'
  cases run : i.execute f with
  | ok control g =>
    rw [i.blind_execute.answers run] at run'
    exact .goes here here' run run' (controls control g run)
  | error fault g =>
    rw [i.blind_execute.failures run] at run'
    exact .fault here here' run run' (.same _)

/-- One instruction that does the same as another one. -/
theorem acts_of_same {i i' : Instruction} (here : f.code[f.position]? = some i) (here' : f'.code[f'.position]? = some i')
    (same : i'.execute = i.execute) (controls : ∀ control g, i.execute f = .ok control g →
      p.Controls f.code f.position f'.code f'.position control control) : p.Acts f f' := by
  refine frames.acts_of_map (h := id) here here' ?_ fun control g run => ?_
  · rw [same, show Control.map id = id from funext Control.map_id, id_map]
  · rw [Control.map_id]
    exact controls control g run

/-- The same instruction of the same code. -/
theorem acts_of_same_place (code : f'.code = f.code) (position : f'.position = f.position)
    (controls : ∀ i control g, f.code[f.position]? = some i → i.execute f = .ok control g →
      p.Controls f.code f.position f'.code f'.position control control) : p.Acts f f' := by
  have same : f'.code[f'.position]? = f.code[f.position]? := by rw [code, position]
  cases here : f.code[f.position]? with
  | none =>
    refine .off here (same.trans here) ?_
    rw [position]
    exact .same _
  | some i => exact frames.acts_of_same here (same.trans here) rfl fun control g run => controls i control g here run

end Frames

/-- Types with methods that go together, one by one. -/
theorem modules_of_types {m m' : Module}
    (types : List.Forall₂ (fun t t' => List.Forall₂ p.Methods t.methods t'.methods) m.types m'.types) : p.Modules m m' := by
  intro token _
  unfold Module.method?
  split
  · have listed : List.Forall₂ (fun a b => p.Methods a.2 b.2) m.methodList m'.methodList :=
      forall₂_flatMap types fun t t' methods => List.forall₂_map_left_iff.mpr (List.forall₂_map_right_iff.mpr methods)
    have rows := Module.rowOf?_of_forall₂ listed token.row
    generalize Module.rowOf? m.methodList token.row = found?, Module.rowOf? m'.methodList token.row = found?' at rows
    cases rows with
    | none => exact .none
    | some related => exact .some related
  · exact .none

section

variable {m m' : Module} (modules : p.Modules m m') (limits : MachineLimits)

include modules

/-- A method that may be entered is entered with the same values on both sides. -/
theorem enter {token : Token} (enters : p.Enters token) (arguments : List Value) (depth : Nat) :
    Outcome.Alike p.Frames (m.enter limits token arguments depth) (m'.enter limits token arguments depth) := by
  unfold Module.enter
  have methods := modules token enters
  generalize m.method? token = found?, m'.method? token = found?' at methods
  cases methods with
  | none => exact .ite (fun _ => .error _) fun _ => .error _
  | @some d d' method =>
    obtain ⟨name, signature, body⟩ := method
    dsimp only
    rw [name, signature]
    refine .ite (fun _ => .error _) fun _ => ?_
    refine (Outcome.Alike.refl (Signature.parseMethod d.signature)).bind fun parsed parsed' same => ?_
    subst same
    refine .ite (fun _ => .error _) fun _ => .ite (fun _ => .error _) fun _ => ?_
    generalize d.body? = body?, d'.body? = body?' at body
    cases body with
    | none => exact .error _
    | @some b b' forms =>
      obtain ⟨types, places⟩ := forms
      dsimp only
      rw [types]
      refine (Outcome.Alike.refl (b.locals.mapM (·.initialValue))).bind fun locals locals' same => ?_
      subst same
      exact .ok ⟨places, rfl⟩

theorem enterCall {callee : Token} (enters : p.Enters callee) {caller caller' : Frame} (callers : p.Frames caller caller')
    (depth : Nat) : Outcome.Alike (fun a b => p.Frames a.1 b.1 ∧ p.Frames a.2 b.2)
      (m.enterCall limits callee caller depth) (m'.enterCall limits callee caller' depth) := by
  unfold Module.enterCall
  have methods := modules callee enters
  generalize m.method? callee = found?, m'.method? callee = found?' at methods
  rw [callers.values]
  dsimp only [Frame.place]
  refine .ite (fun _ => .error _) fun _ => ?_
  cases methods with
  | none => exact .error _
  | @some d d' method =>
    dsimp only
    rw [method.signature]
    refine (Outcome.Alike.refl (Signature.parseMethod d.signature)).bind fun parsed parsed' same => ?_
    subst same
    refine .ite (fun _ => .error _) fun _ => ?_
    refine (enter modules limits enters _ depth).bind fun frame frame' frames => ?_
    exact .ok ⟨frames, callers.places, rfl⟩

theorem start {token : Token} (enters : p.Enters token) (arguments : List Value) (executed : Nat) :
    p.Progresses (Progress.start m limits token arguments executed) (Progress.start m' limits token arguments executed) := by
  unfold Progress.start
  have entered := enter modules limits enters arguments 0
  generalize m.enter limits token arguments 0 = frame, m'.enter limits token arguments 0 = frame' at entered
  cases entered with
  | ok frames => exact .running ⟨fun _ => rfl, frames, .nil⟩
  | error e => exact .ended (.failure (.same e)) fun _ => rfl

end

namespace Machines

variable {m m' : Module} {limits : MachineLimits} {s s' : Machine} (machines : p.Machines s s')

include machines

theorem fail {fault fault' : MethodFault}
    (errors : p.Errors (.machine (.inMethod s.frame.name fault)) (.machine (.inMethod s.frame.name fault'))) :
    p.Progresses (s.fail fault) (s'.fail fault') := by
  unfold Machine.fail
  rw [machines.frame.name]
  exact .ended (.failure errors) machines.executed

theorem follow (modules : p.Modules m m') {control control' : Control}
    (controls : p.Controls s.frame.code s.frame.position s'.frame.code s'.frame.position control control') :
    p.Progresses (s.follow m limits control) (s'.follow m' limits control') := by
  obtain ⟨executed, frame, callers⟩ := s
  obtain ⟨executed', frame', callers'⟩ := s'
  obtain ⟨counts, frames, waiting⟩ := machines
  cases controls with
  | next places => exact .running ⟨counts, frames.moveTo places, waiting⟩
  | jump places => exact .running ⟨counts, frames.moveTo places, waiting⟩
  | finish v =>
    cases waiting with
    | nil => exact .ended (.answer v) counts
    | cons caller others => exact .running ⟨counts, caller.resume v, others⟩
  | @call callee enters places =>
    unfold Machine.follow
    dsimp only at counts frames waiting places ⊢
    rw [← waiting.length_eq]
    have calls := enterCall modules limits enters (frames.moveTo places) (callers.length + 1)
    generalize m.enterCall limits callee { frame with position := frame.position + 1 } (callers.length + 1) = entered,
      m'.enterCall limits callee { frame' with position := frame'.position + 1 } (callers.length + 1) = entered' at calls
    cases calls with
    | error e => exact .ended (.failure (.same e)) counts
    | ok both => exact .running ⟨counts, both.1, .cons both.2 waiting⟩

/-- Machines that go together take a step to machines that go together, or end with results that do. -/
theorem step (modules : p.Modules m m') (counted : p.Counted ∨ limits.instructions = 0) (acts : p.Acts s.frame s'.frame) :
    p.Progresses (s.step m limits) (s'.step m' limits) := by
  have next : p.Machines { s with executed := s.executed + 1 } { s' with executed := s'.executed + 1 } :=
    ⟨fun same => by rw [machines.executed same], machines.frame, machines.callers⟩
  -- the bound refuses both instructions or none: the counts are the same, or there is no bound
  have refused : (0 < limits.instructions ∧ limits.instructions < s'.executed + 1) ↔
      (0 < limits.instructions ∧ limits.instructions < s.executed + 1) := by
    rcases counted with same | unlimited
    · rw [machines.executed same]
    · rw [unlimited]
      exact ⟨fun h => absurd h.1 (Nat.lt_irrefl 0), fun h => absurd h.1 (Nat.lt_irrefl 0)⟩
  unfold Machine.step
  cases acts with
  | off none none' errors =>
    rw [none, none']
    exact machines.fail errors
  | fault here here' run run' errors =>
    rw [here, here']
    dsimp only
    rw [run, run', if_congr refused rfl rfl]
    split
    · exact next.fail (.same _)
    · exact next.fail errors
  | @goes i i' control control' g here here' run run' controls =>
    rw [here, here']
    dsimp only
    rw [run, run', if_congr refused rfl rfl]
    split
    · exact next.fail (.same _)
    · have place := Instruction.execute_keeps_place run
      have code : g.code = s.frame.code := by rw [place, Frame.place]
      have position : g.position = s.frame.position := by rw [place, Frame.place]
      have there : p.Machines ⟨s.executed + 1, g, s.callers⟩
          ⟨s'.executed + 1, g.place s'.frame.code s'.frame.position, s'.callers⟩ := by
        refine ⟨next.executed, ⟨?_, rfl⟩, machines.callers⟩
        rw [code, position]
        exact machines.frame.places
      refine there.follow modules ?_
      dsimp only
      rw [code, position]
      exact controls

end Machines

theorem Results.eq (faults : ∀ fault fault', p.Faults fault fault' → fault' = fault) {r r' : Result Value}
    (results : p.Results r r') : r' = r := by
  cases results with
  | answer v => rfl
  | failure errors =>
    cases errors with
    | same e => rfl
    | fault name both => rw [faults _ _ both]

/-- Whatever goes together acts together, so that runs stay side by side. -/
def Lockstep (p : RunPairing) : Prop := ∀ f f', p.Frames f f' → p.Acts f f'

section

variable {m m' : Module} (modules : p.Modules m m') (lockstep : p.Lockstep) (counted : p.Counted)

include modules lockstep counted

/-- However long they may run, both runs end in the same number of steps, or neither does. -/
theorem run (limits : MachineLimits) (fuel : Nat) {x x' : Progress} (progress : p.Progresses x x') :
    Option.Rel (fun a b => p.Results a.1 b.1 ∧ b.2 = a.2) (x.run m limits fuel) (x'.run m' limits fuel) := by
  -- the fuel is the same on both sides, and each step keeps the machines together
  induction fuel, x using Progress.run.induct m limits generalizing x' with
  | case1 fuel =>
    cases progress with
    | ended results counts =>
      rw [Progress.run_ended, Progress.run_ended]
      exact .some ⟨results, counts counted⟩
  | case2 s =>
    cases progress with
    | running machines => exact .none
  | case3 fuel s ih =>
    cases progress with
    | running machines => exact ih (machines.step modules (.inl counted) (lockstep _ _ machines.frame))

theorem invoke {token : Token} (enters : p.Enters token) (emulator : Emulator) (fuel : Nat) (arguments : List Value) :
    Option.Rel (fun a b => p.Results a.1 b.1 ∧ b.2 = a.2) (emulator.invoke m fuel token arguments)
      (emulator.invoke m' fuel token arguments) := by
  have runs := run modules lockstep counted emulator.limits fuel
    (start modules emulator.limits enters arguments emulator.executed)
  unfold Emulator.invoke
  generalize Progress.run m _ _ _ = ended, Progress.run m' _ _ _ = ended' at runs
  cases runs with
  | none => exact .none
  | @some a b both =>
    obtain ⟨results, counts⟩ := both
    refine .some ⟨results, ?_⟩
    dsimp only
    rw [counts]

/-- Where only equal faults go together, both runs do the same. -/
theorem invoke_eq (faults : ∀ fault fault', p.Faults fault fault' → fault' = fault) {token : Token}
    (enters : p.Enters token) (emulator : Emulator) (fuel : Nat) (arguments : List Value) :
    emulator.invoke m' fuel token arguments = emulator.invoke m fuel token arguments := by
  have runs := invoke modules lockstep counted enters emulator fuel arguments
  generalize emulator.invoke m fuel token arguments = ended, emulator.invoke m' fuel token arguments = ended' at runs
  cases runs with
  | none => rfl
  | some both => exact congrArg some (Prod.ext (both.1.eq faults) both.2)

end

/-! Where the second run may take steps of its own. -/

/-- The second frame skips an instruction that changes nothing, which it can do only so often before both act. -/
structure Skips (p : RunPairing) (rank : Frame → Nat) (f f' : Frame) : Prop where
  noop : ∃ i, f'.code[f'.position]? = some i ∧ i.execute f' = .ok .next f'
  places : p.Places f.code f.position f'.code (f'.position + 1)
  closer : rank { f' with position := f'.position + 1 } < rank f'

def CatchesUp (p : RunPairing) (rank : Frame → Nat) : Prop := ∀ f f', p.Frames f f' → p.Acts f f' ∨ p.Skips rank f f'

section

variable {rank : Frame → Nat} {limits : MachineLimits} (unlimited : limits.instructions = 0) (uncounted : ¬ p.Counted)

include unlimited uncounted

theorem Machines.skip {s s' : Machine} (machines : p.Machines s s') (skips : p.Skips rank s.frame s'.frame) (m' : Module) :
    ∃ next, s'.step m' limits = .running next ∧ p.Machines s next ∧ rank next.frame < rank s'.frame := by
  obtain ⟨⟨i, here, run⟩, places, closer⟩ := skips
  refine ⟨⟨s'.executed + 1, { s'.frame with position := s'.frame.position + 1 }, s'.callers⟩, ?_, ?_, closer⟩
  · have within : ¬ (0 < limits.instructions ∧ limits.instructions < s'.executed + 1) := by omega
    unfold Machine.step
    rw [here]
    dsimp only
    rw [if_neg within, run]
    rfl
  · exact ⟨fun counted => absurd counted uncounted, machines.frame.moveTo places, machines.callers⟩

variable (catchesUp : p.CatchesUp rank)

include catchesUp

/-- After some steps of its own the second machine acts with the first one. -/
theorem Machines.catch_up (m' : Module) {s s' : Machine} (machines : p.Machines s s') :
    ∃ n next, p.Machines s next ∧ p.Acts s.frame next.frame ∧
      ∀ fuel, (Progress.running s').run m' limits (n + fuel) = (Progress.running next).run m' limits fuel := by
  induction distance : rank s'.frame using Nat.strongRecOn generalizing s' with
  | ind distance ih =>
    rcases catchesUp _ _ machines.frame with acts | skips
    · exact ⟨0, s', machines, acts, fun fuel => by rw [Nat.zero_add]⟩
    · obtain ⟨between, step, skipped, closer⟩ := machines.skip unlimited uncounted skips m'
      obtain ⟨n, next, there, acts, runs⟩ := ih _ (distance ▸ closer) skipped rfl
      refine ⟨n + 1, next, there, acts, fun fuel => ?_⟩
      rw [Nat.add_right_comm, Progress.run, step, runs]

variable {m m' : Module} (modules : p.Modules m m')

include modules

/-- Where the first run ends, the second one does. -/
theorem ends_forth {fuel executed : Nat} {x x' : Progress} {r : Result Value} (progress : p.Progresses x x')
    (ended : x.run m limits fuel = some (r, executed)) :
    ∃ fuel' r' executed', x'.run m' limits fuel' = some (r', executed') ∧ p.Results r r' := by
  induction fuel, x using Progress.run.induct m limits generalizing x' with
  | case1 fuel =>
    rw [Progress.run_ended] at ended
    cases ended
    cases progress with
    | ended results => exact ⟨0, _, _, rfl, results⟩
  | case2 s => cases ended
  | case3 fuel s ih =>
    cases progress with
    | running machines =>
      obtain ⟨n, next, there, acts, runs⟩ := machines.catch_up unlimited uncounted catchesUp m'
      obtain ⟨fuel', r', executed', ended', results⟩ := ih (there.step modules (.inr unlimited) acts) ended
      exact ⟨n + (fuel' + 1), r', executed', (runs _).trans ended', results⟩

/-- Where the second run ends, the first one does. -/
theorem ends_back {fuel' executed' : Nat} {x x' : Progress} {r' : Result Value} (progress : p.Progresses x x')
    (ended : x'.run m' limits fuel' = some (r', executed')) :
    ∃ fuel r executed, x.run m limits fuel = some (r, executed) ∧ p.Results r r' := by
  induction fuel', x' using Progress.run.induct m' limits generalizing x with
  | case1 fuel' =>
    rw [Progress.run_ended] at ended
    cases ended
    cases progress with
    | ended results => exact ⟨0, _, _, rfl, results⟩
  | case2 s' => cases ended
  | case3 fuel' s' ih =>
    cases progress with
    | running machines =>
      rcases catchesUp _ _ machines.frame with acts | skips
      · obtain ⟨fuel, r, executed, ended, results⟩ := ih (machines.step modules (.inr unlimited) acts) ended
        exact ⟨fuel + 1, r, executed, ended, results⟩
      · -- the first machine waits
        obtain ⟨next, step, there, -⟩ := machines.skip unlimited uncounted skips m'
        rw [Progress.run, step] at ended
        rw [step] at ih
        exact ih (.running there) ended

end

end RunPairing

end CilWeaver
