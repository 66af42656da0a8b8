import CilWeaver.Proofs.Editing
import CilWeaver.Proofs.PairedRuns

/-!
Runs of a module before and after no-ops are inserted into one of its bodies. A branch to the place of the insertion
passes the new instructions, and code that falls through performs them; either way the values stay the same.
-/

namespace CilWeaver

open Step FrameAction MethodBody

namespace Instruction

variable (h : Nat → Nat) (i : Instruction)

theorem slotIndex_map (index? : Option Nat) : slotIndex (i.map h) index? = i.slotIndex index? := by
  obtain ⟨opcode, operand⟩ := i
  cases index? <;> cases operand <;> rfl

theorem jump_map : Instruction.jump (i.map h) = Control.map h <$> i.jump := by
  obtain ⟨opcode, operand⟩ := i
  cases operand <;> rfl

theorem perform_map (effect : Effect) : perform (i.map h) effect = Control.map h <$> i.perform effect := by
  have opcode : (i.map h).opcode = i.opcode := rfl
  cases effect with
  | jump => exact jump_map h i
  | jumpIf truth =>
    rw [perform, perform, map_bind, jump_map]
    refine congrArg _ (funext fun v => ?_)
    split <;> rfl
  | jumpWhen c =>
    simp only [perform, map_bind, jump_map]
    refine congrArg _ (funext fun b => congrArg _ (funext fun a => congrArg _ (funext fun holds => ?_)))
    split <;> rfl
  | select =>
    obtain ⟨opcode, operand⟩ := i
    cases operand with
    | switch targets =>
      change pop >>= _ = Control.map h <$> (pop >>= _)
      rw [map_bind]
      refine congrArg _ (funext fun v => ?_)
      cases v.int32? with
      | none => rfl
      | some n =>
        dsimp only
        rw [List.getElem?_map]
        split
        · rfl
        · cases targets[n.toInt.toNat]? with
          | none => rfl
          | some target => rfl
    | _ => rfl
  | call =>
    obtain ⟨opcode, operand⟩ := i
    cases operand <;> rfl
  | finish =>
    simp only [perform, map_bind]
    refine congrArg _ (funext fun f => ?_)
    split
    · rfl
    · rw [map_bind]
      rfl
  | literal =>
    obtain ⟨opcode, operand⟩ := i
    cases operand <;> rfl
  | _ => simp only [perform, map_bind, slotIndex_map, opcode, map_pure, Control.map]

/-- An instruction with other targets does the same, and jumps to those. -/
theorem execute_map : execute (i.map h) = Control.map h <$> i.execute := by
  have opcode : (i.map h).opcode = i.opcode := rfl
  unfold execute
  rw [opcode]
  split
  · rfl
  · exact perform_map h i _

/-- A no-op does nothing, whatever operand it has. -/
theorem execute_noop {i : Instruction} (noop : i.opcode = ⟨0x00⟩) (f : Frame) : i.execute f = .ok .next f := by
  unfold execute
  rw [noop]
  rfl

end Instruction

/-- The same place of the same code; or the place that it was shifted to, or one in the no-ops that lead there. -/
def paddedPairing (start : Nat) (noops : List Instruction) : RunPairing where
  Places code position code' position' :=
    code' = code ∧ position' = position ∨
      start ≤ code.length ∧ code' = splice start noops (code.map (·.map (shift start noops.length))) ∧
        (position' = shift start noops.length position ∨
          position = start ∧ start ≤ position' ∧ position' < start + noops.length)
  Enters _ := True
  Faults fault fault' := ∃ position, fault = .offTheEnd position ∧ fault' = .offTheEnd (shift start noops.length position)
  Counted := False

namespace paddedPairing

variable {start : Nat} {noops : List Instruction}

/-- The place behind an instruction goes together with the one behind it in the padded code. -/
theorem next_places {code code' : List Instruction} (inside : start ≤ code.length)
    (padded : code' = splice start noops (code.map (·.map (shift start noops.length)))) (position : Nat) :
    (paddedPairing start noops).Places code (position + 1) code' (shift start noops.length position + 1) := by
  refine .inr ⟨inside, padded, ?_⟩
  unfold shift
  by_cases before : position + 1 < start
  · rw [if_neg (by omega), if_neg (by omega)]
    exact .inl rfl
  · by_cases behind : start ≤ position
    · rw [if_pos behind, if_pos (by omega)]
      exact .inl (by omega)
    · -- the code falls through to where the no-ops begin
      rw [if_neg behind, if_pos (by omega)]
      omega

theorem acts_of_shifted {f f' : Frame} (frames : (paddedPairing start noops).Frames f f') (inside : start ≤ f.code.length)
    (padded : f'.code = splice start noops (f.code.map (·.map (shift start noops.length))))
    (shifted : f'.position = shift start noops.length f.position) : (paddedPairing start noops).Acts f f' := by
  have here' : f'.code[f'.position]? = f.code[f.position]?.map (·.map (shift start noops.length)) := by
    rw [padded, shifted, getElem?_splice noops (by rw [List.length_map]; exact inside), List.getElem?_map]
  cases here : f.code[f.position]? with
  | none =>
    rw [here] at here'
    refine .off here here' ?_
    rw [shifted]
    exact .fault _ ⟨_, rfl, rfl⟩
  | some i =>
    rw [here] at here'
    refine frames.acts_of_map here here' (i.execute_map _) fun control g run => ?_
    have next := next_places inside padded f.position
    rw [← shifted] at next
    cases control with
    | next => exact .next next
    | jump target => exact .jump (.inr ⟨inside, padded, .inl rfl⟩)
    | call callee => exact .call trivial next
    | finish v => exact .finish v

theorem skips_of_inside {f f' : Frame} (noop : ∀ i ∈ noops, i.opcode = ⟨0x00⟩) (inside : start ≤ f.code.length)
    (padded : f'.code = splice start noops (f.code.map (·.map (shift start noops.length)))) (waits : f.position = start)
    (first : start ≤ f'.position) (last : f'.position < start + noops.length) :
    (paddedPairing start noops).Skips (fun f => start + noops.length - f.position) f f' := by
  refine ⟨?_, .inr ⟨inside, padded, ?_⟩, ?_⟩
  · have index : start + (f'.position - start) = f'.position := by omega
    have less : f'.position - start < noops.length := by omega
    have room : start ≤ (f.code.map (·.map (shift start noops.length))).length := by rwa [List.length_map]
    have found := getElem?_splice_new room less
    rw [index, ← padded, List.getElem?_eq_getElem less] at found
    exact ⟨_, found, Instruction.execute_noop (noop _ (List.getElem_mem less)) f'⟩
  · rw [waits, shift, if_pos (Nat.le_refl start)]
    omega
  · dsimp only
    omega

theorem catchesUp (noop : ∀ i ∈ noops, i.opcode = ⟨0x00⟩) :
    (paddedPairing start noops).CatchesUp fun f => start + noops.length - f.position := by
  intro f f' frames
  rcases frames.places with ⟨code, position⟩ | ⟨inside, padded, shifted | ⟨waits, first, last⟩⟩
  · have further : f'.position + 1 = f.position + 1 := by rw [position]
    refine .inl (frames.acts_of_same_place code position fun i control g here run => ?_)
    cases control with
    | next => exact .next (.inl ⟨code, further⟩)
    | jump target => exact .jump (.inl ⟨code, rfl⟩)
    | call callee => exact .call trivial (.inl ⟨code, further⟩)
    | finish v => exact .finish v
  · exact .inl (acts_of_shifted frames inside padded shifted)
  · exact .inr (skips_of_inside noop inside padded waits first last)

theorem methods_self (d : MethodDef) : (paddedPairing start noops).Methods d d := by
  refine ⟨rfl, rfl, ?_⟩
  cases d.body? with
  | none => exact .none
  | some b => exact .some ⟨rfl, .inl ⟨rfl, rfl⟩⟩

/-- The padded method starts where the method did, or in front of it with the no-ops. -/
theorem methods_insert {d : MethodDef} {b padded : MethodBody} (body : d.body? = some b)
    (inserted : b.insert start noops = .ok padded) :
    (paddedPairing start noops).Methods d { d with body? := some padded } := by
  obtain ⟨inside, rfl⟩ := insert_eq_ok.mp inserted
  refine ⟨rfl, rfl, ?_⟩
  rw [body]
  refine .some ⟨rfl, .inr ⟨inside, rfl, ?_⟩⟩
  unfold shift
  split
  · omega
  · exact .inl rfl

end paddedPairing

/-- One method of a module is replaced by another one. -/
inductive Module.Replaced (d d' : MethodDef) : Module → Module → Prop
  | intro (m : Module) (t : TypeDef) (front back : List TypeDef) (before behind : List MethodDef) :
    Replaced d d' { m with types := front ++ { t with methods := before ++ d :: behind } :: back }
      { m with types := front ++ { t with methods := before ++ d' :: behind } :: back }

theorem Module.Replaced.modules {p : RunPairing} (self : ∀ d, p.Methods d d) {d d' : MethodDef} {m m' : Module}
    (replaced : m.Replaced d d' m') (methods : p.Methods d d') : p.Modules m m' := by
  have all (ds : List MethodDef) : List.Forall₂ p.Methods ds ds := List.forall₂_same.mpr fun d _ => self d
  have others (ts : List TypeDef) : List.Forall₂ (fun t t' => List.Forall₂ p.Methods t.methods t'.methods) ts ts :=
    List.forall₂_same.mpr fun t _ => all t.methods
  obtain ⟨m, t, front, back, before, behind⟩ := replaced
  exact RunPairing.modules_of_types (List.rel_append (others front)
    (.cons (List.rel_append (all before) (.cons methods (all behind))) (others back)))

/-- The emulator comes to an end with this result, when it may run long enough. -/
def Emulator.Ends (e : Emulator) (m : Module) (token : Token) (arguments : List Value) (result : Result Value) : Prop :=
  ∃ fuel after, e.invoke m fuel token arguments = some (result, after)

theorem Emulator.ends_iff {e : Emulator} {m : Module} {token : Token} {arguments : List Value} {result : Result Value} :
    e.Ends m token arguments result ↔ ∃ fuel executed,
      (Progress.start m e.limits token arguments e.executed).run m e.limits fuel = some (result, executed) := by
  unfold Ends invoke
  refine exists_congr fun fuel => ⟨fun ⟨after, ended⟩ => ?_, fun ⟨executed, ended⟩ => ⟨_, by rw [ended]; rfl⟩⟩
  obtain ⟨⟨result', executed⟩, run, same⟩ := Option.map_eq_some_iff.mp ended
  cases same
  exact ⟨executed, run⟩

/-- The same failure, or the end of the code where it was shifted to. -/
def Error.Shifted (start count : Nat) (e e' : Error) : Prop :=
  e' = e ∨ ∃ name position, e = .machine (.inMethod name (.offTheEnd position)) ∧
    e' = .machine (.inMethod name (.offTheEnd (shift start count position)))

theorem Error.Shifted.ctorIdx_eq {start count : Nat} {e e' : Error} (shifted : e.Shifted start count e') :
    e'.ctorIdx = e.ctorIdx := by
  rcases shifted with rfl | ⟨name, position, rfl, rfl⟩
  · rfl
  · rfl

theorem paddedPairing.shifted {start : Nat} {noops : List Instruction} {e e' : Error}
    (errors : (paddedPairing start noops).Errors e e') : e.Shifted start noops.length e' := by
  cases errors with
  | same e => exact .inl rfl
  | fault name faults =>
    obtain ⟨position, rfl, rfl⟩ := faults
    exact .inr ⟨name, position, rfl, rfl⟩

namespace Sample

/-- Counts a local down from three to zero; the branch at the end leads back to its third instruction. -/
def countdown : MethodBody :=
  { code := [.ldcI4 3, ⟨⟨0x0A⟩, .none⟩, ⟨⟨0x06⟩, .none⟩, .ldcI4 1, ⟨⟨0x59⟩, .none⟩, ⟨⟨0x25⟩, .none⟩, ⟨⟨0x0A⟩, .none⟩,
      ⟨⟨0x2D⟩, .target 2⟩, ⟨⟨0x06⟩, .none⟩, .ret]
    locals := [.primitive .int32] }

def counting (b : MethodBody) : MethodDef :=
  { flags := 0x10, implFlags := 0, name := "Count", signature := [0, 0, 8], params := [], body? := some b }

def counters (methods : List MethodDef) : Module :=
  { name := "m"
    types := [{ flags := 0, namespaceName := "", name := "T", baseType := .null, fields := [], methods }] }

end Sample

end CilWeaver
