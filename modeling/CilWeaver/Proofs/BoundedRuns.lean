import CilWeaver.Proofs.Failures
import CilWeaver.Proofs.StrictRuns

/-!
What the limits of an emulator bound. However often it is asked, and whatever became of earlier requests, it performs no
more instructions than its limits allow, and no more calls are open at a time.
-/

namespace CilWeaver

/-- How a run may fail: with a fault of the machine, by too many open calls, or by a signature that cannot be read. -/
inductive Module.RunFailure (m : Module) (limits : MachineLimits) : Error → Prop
  | machine (fault : MachineFault) : RunFailure m limits (.machine fault)
  | depth : RunFailure m limits (.recursionLimit limits.depth)
  | signature {token : Token} {d : MethodDef} {e : Error} : m.method? token = some d →
    Signature.parseMethod d.signature = .error e → RunFailure m limits e

namespace Machine

/-- Whether the machine performs an instruction: there is one, and the limit is not reached. -/
def dispatches (limits : MachineLimits) (s : Machine) : Bool :=
  s.frame.position < s.frame.code.length && (limits.instructions == 0 || s.executed < limits.instructions)

end Machine

namespace Progress

def executed : Progress → Nat
  | running s => s.executed
  | ended _ executed => executed

/-- The machines that take a step in a run. -/
def machines (m : Module) (limits : MachineLimits) : (fuel : Nat) → Progress → List Machine
  | _, ended _ _ => []
  | 0, running _ => []
  | fuel + 1, running s => s :: machines m limits fuel (s.step m limits)

theorem machines_ended (m : Module) (limits : MachineLimits) (fuel : Nat) (r : Result Value) (executed : Nat) :
    (ended r executed).machines m limits fuel = [] := by
  cases fuel <;> rfl

/-- No more calls are open than the limits allow, and a failure is one that a run may have. -/
inductive Within (m : Module) (limits : MachineLimits) : Progress → Prop
  | running {s : Machine} : s.callers.length < limits.depth → Within m limits (.running s)
  | ended {r : Result Value} {executed : Nat} : Outcome.FailsWith (m.RunFailure limits) r →
    Within m limits (.ended r executed)

end Progress

/-! What a step is charged. -/

namespace Machine

variable {m : Module} {limits : MachineLimits}

theorem executed_follow (s : Machine) (control : Control) : (s.follow m limits control).executed = s.executed := by
  cases control with
  | next => rfl
  | jump target => rfl
  | call callee =>
    unfold follow
    dsimp only
    split <;> rfl
  | finish v =>
    unfold follow
    dsimp only
    split <;> rfl

/-- A machine performs an instruction and counts it; or the run is over, and an instruction that the limit refuses is
    counted too. -/
theorem step_cases (bounded : 0 < limits.instructions) (s : Machine) :
    (s.dispatches limits = true ∧ s.executed < limits.instructions ∧ (s.step m limits).executed = s.executed + 1) ∨
    (s.dispatches limits = false ∧ ∃ r executed, s.step m limits = .ended r executed ∧
      (executed = s.executed ∨ limits.instructions ≤ s.executed ∧ executed = s.executed + 1)) := by
  have unlimited : (limits.instructions == 0) = false := beq_eq_false_iff_ne.mpr (Nat.pos_iff_ne_zero.mp bounded)
  unfold dispatches step
  rw [unlimited, Bool.false_or]
  by_cases inside : s.frame.position < s.frame.code.length
  · rw [List.getElem?_eq_getElem inside]
    dsimp only
    by_cases spent : limits.instructions ≤ s.executed
    · have stays : ¬ s.executed < limits.instructions := Nat.not_lt.mpr spent
      rw [if_pos ⟨bounded, Nat.lt_succ_of_le spent⟩]
      exact .inr ⟨by simp [stays], _, _, rfl, .inr ⟨spent, rfl⟩⟩
    · have less : s.executed < limits.instructions := Nat.not_le.mp spent
      rw [if_neg fun refused => absurd refused.2 (Nat.not_lt.mpr less)]
      refine .inl ⟨by simp [inside, less], less, ?_⟩
      split
      · rfl
      · exact executed_follow _ _
  · rw [List.getElem?_eq_none (Nat.not_lt.mp inside)]
    exact .inr ⟨by simp [inside], _, _, rfl, .inl rfl⟩

end Machine

namespace Progress

variable {m : Module} {limits : MachineLimits} (bounded : 0 < limits.instructions)

include bounded

/-- The instructions that are left bound the steps of a run. -/
theorem run_ends {fuel : Nat} {x : Progress} (enough : limits.instructions - x.executed < fuel) :
    ∃ r executed, x.run m limits fuel = some (r, executed) := by
  induction fuel, x using run.induct m limits with
  | case1 fuel r executed => exact ⟨r, executed, run_ended m limits fuel r executed⟩
  | case2 s => exact absurd enough (Nat.not_lt_zero _)
  | case3 fuel s ih =>
    rcases s.step_cases (m := m) bounded with ⟨-, less, charged⟩ | ⟨-, r, executed, last, -⟩
    · refine ih ?_
      rw [charged]
      dsimp only [Progress.executed] at enough
      omega
    · refine ⟨r, executed, ?_⟩
      rw [run, last, run_ended]

/-- A run performs as many instructions as it counts, up to the limit. -/
theorem run_charges {fuel executed : Nat} {x : Progress} {r : Result Value}
    (ended : x.run m limits fuel = some (r, executed)) :
    (x.machines m limits fuel).countP (Machine.dispatches limits) + min x.executed limits.instructions =
      min executed limits.instructions ∧ executed ≤ max x.executed limits.instructions + 1 := by
  induction fuel, x using run.induct m limits with
  | case1 fuel r' executed' =>
    rw [run_ended] at ended
    rw [machines_ended, List.countP_nil]
    cases ended
    dsimp only [Progress.executed]
    omega
  | case2 s => cases ended
  | case3 fuel s ih =>
    rw [run] at ended
    rw [machines]
    dsimp only [Progress.executed]
    rcases s.step_cases (m := m) bounded with ⟨performs, less, charged⟩ | ⟨refuses, r', executed', last, counts⟩
    · obtain ⟨count, most⟩ := ih ended
      rw [charged] at count most
      rw [List.countP_cons_of_pos performs]
      omega
    · rw [last, run_ended] at ended
      rw [last, machines_ended, List.countP_cons_of_neg (by rw [refuses]; exact Bool.false_ne_true), List.countP_nil]
      cases ended
      omega

end Progress

/-! How many calls are open, and how a run fails. -/

namespace Module

variable {m : Module} {limits : MachineLimits}

open Outcome (FailsWith)

theorem fails_enter (token : Token) (arguments : List Value) (depth : Nat) :
    FailsWith (m.RunFailure limits) (m.enter limits token arguments depth) := by
  unfold enter
  refine .ite (.error .depth) ?_
  cases found : m.method? token with
  | none => exact .error (.machine _)
  | some d =>
    refine .bind (fun e failed => .signature found failed) fun signature => ?_
    refine .ite (.error (.machine _)) (.ite (.error (.machine _)) ?_)
    cases d.body? with
    | none => exact .error (.machine _)
    | some b =>
      refine .bind (.mapM (fun type => ?_) b.locals) fun locals => .ok _
      intro e failed
      unfold TypeSig.initialValue at failed
      split at failed <;> cases failed
      exact .machine _

/-- Whoever is entered is not below too many others. -/
theorem depth_of_enter {token : Token} {arguments : List Value} {depth : Nat} {f : Frame}
    (entered : m.enter limits token arguments depth = .ok f) : depth < limits.depth := by
  unfold enter at entered
  by_contra deep
  rw [if_pos (Nat.not_lt.mp deep)] at entered
  cases entered

theorem fails_enterCall (callee : Token) (caller : Frame) (depth : Nat) :
    FailsWith (m.RunFailure limits) (m.enterCall limits callee caller depth) := by
  unfold enterCall
  refine .ite (.error (.machine _)) ?_
  cases found : m.method? callee with
  | none => exact .error (.machine _)
  | some d =>
    refine .bind (fun e failed => .signature found failed) fun signature => ?_
    exact .ite (.error (.machine _)) (.bind (fails_enter _ _ _) fun frame => .ok _)

theorem depth_of_enterCall {callee : Token} {caller : Frame} {depth : Nat} {frames : Frame × Frame}
    (entered : m.enterCall limits callee caller depth = .ok frames) : depth < limits.depth := by
  unfold enterCall at entered
  by_cases foreign : (!callee.isIn .methodDef) = true
  · rw [if_pos foreign] at entered
    cases entered
  · rw [if_neg foreign] at entered
    cases found : m.method? callee with
    | none =>
      rw [found] at entered
      cases entered
    | some d =>
      rw [found] at entered
      obtain ⟨signature, -, entered⟩ := Outcome.bind_eq_ok.mp entered
      dsimp only at entered
      split at entered
      · cases entered
      · obtain ⟨frame, first, -⟩ := Outcome.bind_eq_ok.mp entered
        exact depth_of_enter first

end Module

namespace Machine

variable {m : Module} {limits : MachineLimits} {s : Machine}

theorem within_fail (s : Machine) (fault : MethodFault) : (s.fail fault).Within m limits := .ended (.error (.machine _))

theorem within_follow (shallow : s.callers.length < limits.depth) (control : Control) :
    (s.follow m limits control).Within m limits := by
  cases control with
  | next => exact .running shallow
  | jump target => exact .running shallow
  | finish v =>
    unfold follow
    dsimp only
    cases callers : s.callers with
    | nil => exact .ended (.ok v)
    | cons caller others =>
      rw [callers, List.length_cons] at shallow
      exact .running (Nat.lt_of_succ_lt shallow)
  | call callee =>
    unfold follow
    dsimp only
    cases entered : m.enterCall limits callee _ (s.callers.length + 1) with
    | error e => exact .ended (.error (Module.fails_enterCall _ _ _ e entered))
    | ok frames => exact .running (Module.depth_of_enterCall entered)

theorem within_step (shallow : s.callers.length < limits.depth) : (s.step m limits).Within m limits := by
  unfold step
  split
  · exact within_fail s _
  · dsimp only
    split
    · exact within_fail _ _
    · split
      · exact within_fail _ _
      · rename_i control frame _
        exact within_follow (s := ⟨s.executed + 1, frame, s.callers⟩) shallow control

end Machine

namespace Progress

variable {m : Module} {limits : MachineLimits}

theorem within_start (token : Token) (arguments : List Value) (executed : Nat) :
    (start m limits token arguments executed).Within m limits := by
  unfold start
  cases entered : m.enter limits token arguments 0 with
  | error e => exact .ended (.error (Module.fails_enter _ _ _ e entered))
  | ok f => exact .running (Module.depth_of_enter entered)

/-- What a step keeps holds all along a run, and at its end. -/
theorem within_run {x : Progress} (within : x.Within m limits) (fuel : Nat) :
    (∀ s ∈ x.machines m limits fuel, s.callers.length < limits.depth) ∧
      ∀ r executed, x.run m limits fuel = some (r, executed) → Outcome.FailsWith (m.RunFailure limits) r := by
  induction fuel, x using run.induct m limits with
  | case1 fuel r executed =>
    rw [machines_ended, run_ended]
    refine ⟨fun s member => absurd member List.not_mem_nil, fun r' executed' last => ?_⟩
    cases last
    cases within with
    | ended fails => exact fails
  | case2 s => exact ⟨fun s member => absurd member List.not_mem_nil, nofun⟩
  | case3 fuel s ih =>
    cases within with
    | running shallow =>
      obtain ⟨all, fails⟩ := ih (Machine.within_step shallow)
      exact ⟨List.forall_mem_cons.mpr ⟨shallow, all⟩, fails⟩

end Progress

/-! An emulator that is asked again and again. -/

/-- What an emulator is asked to run: a method by its token, or by the names of its type and of itself. -/
inductive Request
  | method (token : Token) (arguments : List Value)
  | named (typeName methodName : String) (arguments : List Value)

namespace Request

def start (m : Module) (limits : MachineLimits) (executed : Nat) : Request → Progress
  | method token arguments => .start m limits token arguments executed
  | named typeName methodName arguments =>
    match m.findMethod? typeName methodName with
    | none => .ended (.error (.machine (.unknownMethod typeName methodName))) executed
    | some (token, _) => .start m limits token arguments executed

def strictStart (m : Module) (limits : MachineLimits) (executed : Nat) : Request → Option Progress
  | method token arguments => Progress.strictStart m limits token arguments executed
  | named typeName methodName arguments =>
    match m.findMethod? typeName methodName with
    | none => some (.ended (.error (.machine (.unknownMethod typeName methodName))) executed)
    | some (token, _) => Progress.strictStart m limits token arguments executed

theorem strictStart_eq (request : Request) (m : Module) (limits : MachineLimits) (executed : Nat) :
    request.strictStart m limits executed = some (request.start m limits executed) := by
  cases request with
  | method token arguments => exact Progress.strictStart_eq m limits token arguments executed
  | named typeName methodName arguments =>
    unfold strictStart start
    dsimp only
    cases m.findMethod? typeName methodName with
    | none => rfl
    | some found => exact Progress.strictStart_eq m limits found.1 arguments executed

theorem within_start (request : Request) (m : Module) (limits : MachineLimits) (executed : Nat) :
    (request.start m limits executed).Within m limits := by
  cases request with
  | method token arguments => exact Progress.within_start token arguments executed
  | named typeName methodName arguments =>
    unfold start
    dsimp only
    cases m.findMethod? typeName methodName with
    | none => exact .ended (.error (.machine _))
    | some found => exact Progress.within_start found.1 arguments executed

theorem executed_start (request : Request) (m : Module) (limits : MachineLimits) (executed : Nat) :
    (request.start m limits executed).executed = executed := by
  have started (token : Token) (arguments : List Value) : (Progress.start m limits token arguments executed).executed = executed := by
    unfold Progress.start
    split <;> rfl
  cases request with
  | method token arguments => exact started token arguments
  | named typeName methodName arguments =>
    unfold start
    dsimp only
    cases m.findMethod? typeName methodName with
    | none => rfl
    | some found => exact started found.1 arguments

end Request

namespace Emulator

/-- Answers a request. -/
def serve (m : Module) (fuel : Nat) : Request → StateT Emulator Option (Result Value)
  | .method token arguments => fun e => e.invoke m fuel token arguments
  | .named typeName methodName arguments => fun e => e.invokeNamed m fuel typeName methodName arguments

def strictServe (m : Module) (fuel : Nat) (request : Request) : StateT Emulator Option (Result Value) := fun e => do
  let (result, executed) ← (← request.strictStart m e.limits e.executed).strictRun m e.limits fuel
  return (result, { e with executed })

/-- The machines that take a step while requests are answered one after the other. -/
def machines (m : Module) (fuel : Nat) : List Request → Emulator → List Machine
  | [], _ => []
  | request :: requests, e =>
    (request.start m e.limits e.executed).machines m e.limits fuel ++
      match serve m fuel request e with
      | none => []
      | some (_, e) => machines m fuel requests e

theorem serve_apply (m : Module) (fuel : Nat) (request : Request) (e : Emulator) : serve m fuel request e =
    ((request.start m e.limits e.executed).run m e.limits fuel).map fun ended => (ended.1, { e with executed := ended.2 }) := by
  cases request with
  | method token arguments => rfl
  | named typeName methodName arguments =>
    unfold serve Request.start
    dsimp only
    unfold invokeNamed
    cases m.findMethod? typeName methodName with
    | none =>
      rw [Progress.run_ended]
      rfl
    | some found => rfl

theorem strictServe_eq (m : Module) (fuel : Nat) : strictServe m fuel = serve m fuel := by
  funext request e
  unfold strictServe
  rw [Request.strictStart_eq, serve_apply]
  dsimp only [Option.bind_eq_bind, Option.bind_some]
  rw [Progress.strictRun_eq]
  cases (request.start m e.limits e.executed).run m e.limits fuel with
  | none => rfl
  | some ended => rfl

/-- What holds of an emulator that was asked so often, of the machines that took a step and of the results. -/
structure Keeps (m : Module) (requests : Nat) (e after : Emulator) (machines : List Machine) (results : List (Result Value)) :
    Prop where
  limits : after.limits = e.limits
  charged : machines.countP (Machine.dispatches e.limits) + min e.executed e.limits.instructions =
    min after.executed e.limits.instructions
  counted : after.executed ≤ max e.executed e.limits.instructions + requests
  depth : ∀ s ∈ machines, s.callers.length < e.limits.depth
  answers : results.length = requests
  failures : ∀ r ∈ results, Outcome.FailsWith (m.RunFailure e.limits) r

theorem Keeps.nil (m : Module) (e : Emulator) : Keeps m 0 e e [] [] :=
  ⟨rfl, Nat.zero_add _, Nat.le_max_left _ _, fun _ member => absurd member List.not_mem_nil, rfl,
    fun _ member => absurd member List.not_mem_nil⟩

/-- One more request in front of others. -/
theorem Keeps.cons {m : Module} {requests : Nat} {e between after : Emulator} {first others : List Machine}
    {r : Result Value} {results : List (Result Value)} (one : Keeps m 1 e between first [r])
    (rest : Keeps m requests between after others results) :
    Keeps m (requests + 1) e after (first ++ others) (r :: results) := by
  obtain ⟨limits, charged, counted, depth, -, failures⟩ := one
  obtain ⟨limits', charged', counted', depth', answers', failures'⟩ := rest
  rw [limits] at limits' charged' counted' depth' failures'
  refine ⟨limits', ?_, by omega, fun s member => ?_, ?_, ?_⟩
  · rw [List.countP_append]
    omega
  · rcases List.mem_append.mp member with earlier | later
    · exact depth s earlier
    · exact depth' s later
  · rw [List.length_cons, answers']
  · exact List.forall_mem_cons.mpr ⟨failures r List.mem_cons_self, failures'⟩

/-- Every request is answered, in whatever state the earlier ones left the emulator. -/
theorem keeps_serve (m : Module) (request : Request) {e : Emulator} (bounded : 0 < e.limits.instructions) {fuel : Nat}
    (enough : e.limits.instructions < fuel) : ∃ r after, serve m fuel request e = some (r, after) ∧
      Keeps m 1 e after ((request.start m e.limits e.executed).machines m e.limits fuel) [r] := by
  have start := request.executed_start m e.limits e.executed
  obtain ⟨r, executed, ended⟩ := Progress.run_ends (m := m) (x := request.start m e.limits e.executed) bounded
    (Nat.lt_of_le_of_lt (Nat.sub_le _ _) enough)
  obtain ⟨charged, counted⟩ := Progress.run_charges bounded ended
  obtain ⟨depth, fails⟩ := Progress.within_run (request.within_start m e.limits e.executed) fuel
  rw [start] at charged counted
  refine ⟨r, { e with executed }, by rw [serve_apply, ended]; rfl, rfl, charged, counted, depth, rfl, fun r' member => ?_⟩
  rw [List.mem_singleton.mp member]
  exact fails r executed ended

theorem keeps_mapM (m : Module) {fuel : Nat} (requests : List Request) {e : Emulator} (bounded : 0 < e.limits.instructions)
    (enough : e.limits.instructions < fuel) : ∃ results after, requests.mapM (serve m fuel) e = some (results, after) ∧
      Keeps m requests.length e after (machines m fuel requests e) results := by
  induction requests generalizing e with
  | nil => exact ⟨[], e, rfl, .nil m e⟩
  | cons request requests ih =>
    obtain ⟨r, between, served, one⟩ := keeps_serve m request bounded enough
    obtain ⟨results, after, others, rest⟩ := @ih between (one.limits ▸ bounded) (one.limits ▸ enough)
    refine ⟨r :: results, after, ?_, ?_⟩
    · rw [List.mapM_cons]
      change (serve m fuel request e >>= fun a => _) = _
      rw [served]
      change (requests.mapM (serve m fuel) between >>= fun a => _) = _
      rw [others]
      rfl
    · rw [machines, served]
      exact one.cons rest

/-- An emulator keeps to its limits. However many requests it gets, it answers each of them; all together it performs no
    more instructions than the limit, calls are never nested deeper than allowed, and the failures are those of a run.
    Nothing that it does is left without a result, be it a division, a shift, an index or a difference. -/
theorem serves_within_limits (m : Module) {limits : MachineLimits} (bounded : 0 < limits.instructions) {fuel : Nat}
    (enough : limits.instructions < fuel) (requests : List Request) :
    ∃ results after, (requests.mapM (serve m fuel)).run { limits } = some (results, after) ∧
      (requests.mapM (strictServe m fuel)).run { limits } = some (results, after) ∧ results.length = requests.length ∧
      (∀ e, .error e ∈ results → m.RunFailure limits e) ∧
      (machines m fuel requests { limits }).countP (Machine.dispatches limits) ≤ limits.instructions ∧
      (∀ s ∈ machines m fuel requests { limits }, s.callers.length < limits.depth) ∧
      after.executed ≤ limits.instructions + requests.length := by
  obtain ⟨results, after, served, keeps⟩ := keeps_mapM m requests (e := { limits }) bounded enough
  refine ⟨results, after, served, ?_, keeps.answers, fun e member => keeps.failures _ member e rfl, ?_, keeps.depth, ?_⟩
  · rw [strictServe_eq]
    exact served
  · have charged := keeps.charged
    dsimp only at charged
    omega
  · have counted := keeps.counted
    dsimp only at counted
    omega

end Emulator

namespace Sample

/-- A method that loops, one that calls itself, and one that divides the least number by minus one. -/
def unruly : Module :=
  let method (name : String) (code : List Instruction) : MethodDef :=
    { flags := 0x10, implFlags := 0, name, signature := [0, 0, 8], params := [], body? := some { code } }
  { name := "m"
    types := [{ flags := 0, namespaceName := "", name := "T", baseType := .null, fields := []
                methods := [
                  method "Loop" [⟨⟨0x2B⟩, .target 0⟩],
                  method "Again" [⟨.call, .token (.ofRow .methodDef 2)⟩],
                  method "Divide" [.ldcI4 Int32.minValue, .ldcI4 (-1), ⟨⟨0x5B⟩, .none⟩, .ret]] }] }

end Sample

/-- A quotient that does not exist, calls that are nested too deep, and a loop for which three instructions are left. -/
theorem Emulator.serves_within_limits_unruly :
    let requests : List Request := [.method (.ofRow .methodDef 3) [], .method (.ofRow .methodDef 2) [], .named "T" "Loop" []]
    (requests.mapM (strictServe Sample.unruly 9)).run { limits := ⟨8, 2⟩ } =
      some ([.error (.machine (.inMethod "Divide(0x06000003)" (.trap ⟨0x5B⟩ (.int32 Int32.minValue) (.int32 (-1))))),
        .error (.recursionLimit 2), .error (.machine (.inMethod "Loop(0x06000001)" (.budget 8)))], ⟨⟨8, 2⟩, 9⟩) := by
  intro requests
  have bounded : 0 < (⟨8, 2⟩ : MachineLimits).instructions := by decide
  have enough : (⟨8, 2⟩ : MachineLimits).instructions < 9 := by decide
  obtain ⟨results, after, served, strictly, -⟩ := serves_within_limits Sample.unruly bounded enough requests
  rw [strictly, ← served]
  decide +kernel

end CilWeaver
