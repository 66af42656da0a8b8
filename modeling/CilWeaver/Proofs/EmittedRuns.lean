import CilWeaver.Proofs.LoadedImages
import CilWeaver.Proofs.PairedRuns

/-!
A module that was written and read again runs as it did before. Its branches are partly in their long form; the runs
take the same steps as those of the module itself, and end with the same results.
-/

namespace CilWeaver

/-- A second form of a body, in which branches may be longer. -/
structure MethodBody.Widened (b b' : MethodBody) : Prop where
  code : List.Forall₂ Instruction.Widened b.code b'.code
  locals : b'.locals = b.locals

structure MethodDef.Widened (d d' : MethodDef) : Prop where
  name : d'.name = d.name
  signature : d'.signature = d.signature
  body : Option.Rel MethodBody.Widened d.body? d'.body?

/-- The methods of two modules are the same but for the form of their branches. -/
def Module.Widened (m m' : Module) : Prop :=
  List.Forall₂ (fun t t' => List.Forall₂ MethodDef.Widened t.methods t'.methods) m.types m'.types

/-- The same failure, or that of a branch that the machine does not know, named in either form. -/
inductive Error.Widened : Error → Error → Prop
  | same (e : Error) : Widened e e
  | branch (name : String) {short long : OpCode} : short.longForm? = some long →
    Widened (.machine (.inMethod name (.unsupported short))) (.machine (.inMethod name (.unsupported long)))

inductive Outcome.Widened : Result Value → Result Value → Prop
  | answer (v : Value) : Widened (.ok v) (.ok v)
  | failure {e e' : Error} : e.Widened e' → Widened (.error e) (.error e')

/-- The same place in both forms of the code. -/
def widenedPairing : RunPairing where
  Places code position code' position' := position' = position ∧ List.Forall₂ Instruction.Widened code code'
  Enters _ := True
  Faults fault fault' := ∃ short long, short.longForm? = some long ∧ fault = .unsupported short ∧ fault' = .unsupported long
  Counted := True

namespace widenedPairing

theorem lockstep : widenedPairing.Lockstep := by
  intro f f' frames
  obtain ⟨position, code⟩ := frames.places
  have further : f'.position + 1 = f.position + 1 := by rw [position]
  -- the instruction at a position is the row behind it, and related lists have related rows
  have next := Module.rowOf?_of_forall₂ code (f.position + 1)
  change Option.Rel _ f.code[f.position]? f'.code[f.position]? at next
  rw [← position] at next
  generalize here : f.code[f'.position]? = i?, here' : f'.code[f'.position]? = j? at next
  rw [position] at here
  cases next with
  | none =>
    refine .off here here' ?_
    rw [position]
    exact .same _
  | @some i j widened =>
    rcases widened.execute with same | ⟨long, form, unknown, unknown'⟩
    · refine frames.acts_of_same here here' same fun control g run => ?_
      cases control with
      | next => exact .next ⟨further, code⟩
      | jump target => exact .jump ⟨rfl, code⟩
      | call callee => exact .call trivial ⟨further, code⟩
      | finish v => exact .finish v
    · have run : i.execute f = .error (.unsupported i.opcode) f := by
        rw [unknown]
        rfl
      have run' : j.execute f' = .error (.unsupported long) f' := by
        rw [unknown']
        rfl
      exact .fault here here' run run' (.fault f.name ⟨_, _, form, rfl, rfl⟩)

theorem methods {d d' : MethodDef} (widened : d.Widened d') : widenedPairing.Methods d d' := by
  obtain ⟨name, signature, body⟩ := widened
  refine ⟨name, signature, ?_⟩
  generalize d.body? = body?, d'.body? = body?' at body
  cases body with
  | none => exact .none
  | some forms => exact .some ⟨forms.locals, rfl, forms.code⟩

theorem outcome {r r' : Result Value} (results : widenedPairing.Results r r') : Outcome.Widened r r' := by
  cases results with
  | answer v => exact .answer v
  | failure errors =>
    cases errors with
    | same => exact .failure (.same _)
    | fault name faults =>
      obtain ⟨short, long, form, rfl, rfl⟩ := faults
      exact .failure (.branch name form)

end widenedPairing

theorem Emulator.invoke_widened {m m' : Module} (modules : m.Widened m') (emulator : Emulator) (fuel : Nat) (token : Token)
    (arguments : List Value) :
    Option.Rel (fun a b => Outcome.Widened a.1 b.1 ∧ b.2 = a.2) (emulator.invoke m fuel token arguments)
      (emulator.invoke m' fuel token arguments) := by
  have types := List.Forall₂.imp (fun _ _ => List.Forall₂.imp fun _ _ => widenedPairing.methods) modules
  have entered : widenedPairing.Enters token := trivial
  have runs := RunPairing.invoke (RunPairing.modules_of_types types) widenedPairing.lockstep trivial entered emulator fuel
    arguments
  generalize emulator.invoke m fuel token arguments = run, emulator.invoke m' fuel token arguments = run' at runs
  cases runs with
  | none => exact .none
  | some both => exact .some ⟨widenedPairing.outcome both.1, both.2⟩

namespace Module

variable {m found : Module} {name : String} {code : Bytes} {symbols? : Option Bytes} {maxBodySize : Nat}

/-- Whichever reader was used, it has the types of the images. -/
theorem ReadAs.images (read : ReadAs name code symbols? maxBodySize found) :
    ∃ plain, ofImages name maxBodySize code symbols? = .ok plain ∧ found.types = plain.types := by
  cases read with
  | resolved read =>
    obtain ⟨plain, types, members, images, -, -, rfl⟩ := ofImages_of_read read
    exact ⟨plain, images, rfl⟩
  | definitions read => exact ⟨found, mapError_eq_ok.mp read, rfl⟩

/-- The locals of all bodies are those that their signatures tell. -/
def TellsLocals (m : Module) : Prop :=
  ∀ t ∈ m.types, ∀ method ∈ t.methods, method.AllBodies fun b => m.localTypes b.localSignature = .ok b.locals

/-- The methods that are read are those of the module, in the form in which they were written. -/
theorem widened_of_reread (stored : Module) (tells : m.TellsLocals) (signatures : stored.localSignatures = m.localSignatures)
    (types : found.types = m.types.map (TypeDef.reread stored)) : m.Widened found := by
  unfold Module.Widened
  rw [types, List.forall₂_map_right_iff, List.forall₂_same]
  intro t typeMember
  unfold TypeDef.reread
  rw [List.forall₂_map_right_iff, List.forall₂_same]
  intro method member
  refine ⟨rfl, rfl, ?_⟩
  unfold MethodDef.reread
  dsimp only
  cases body : method.body? with
  | none => exact .none
  | some b =>
    have locals : stored.localTypes b.localSignature = .ok b.locals := by
      have own := tells t typeMember method member b body
      unfold localTypes at own ⊢
      rwa [signatures]
    refine .some ⟨Code.widened_promote b.code, ?_⟩
    unfold MethodBody.reread
    rw [locals]
    rfl

theorem widened_of_read {digest : Bytes → ImageId} {e : EmittedModule} (emitted : m.emit digest = .ok e)
    (noNul : '\x00' ∉ m.runtimeVersion.toList) (noNulPath : ∀ file ∈ m.symbols?, '\x00' ∉ file.path.toList)
    (tells : m.TellsLocals) (given : symbols? = none ∨ symbols? = CompiledModule.symbols? ⟨name, e.code, e.symbols⟩)
    (read : ReadAs name e.code symbols? maxBodySize found) : m.Widened found := by
  obtain ⟨rows, d, b, record?, written⟩ := emittedAs_of_emit emitted
  obtain ⟨plain, images, types⟩ := read.images
  rcases given with rfl | rfl
  · obtain ⟨rfl, -, -⟩ := (ofImage_eq_ok written).mp images
    exact widened_of_reread (m.withTexts (beforeNul m.runtimeVersion) none) tells rfl types
  · obtain ⟨rfl, -, -, -⟩ := (ofImages_eq_ok written noNul noNulPath).mp images
    exact widened_of_reread m tells rfl types

end Module

theorem Error.Widened.ctorIdx_eq {e e' : Error} (widened : e.Widened e') : e'.ctorIdx = e.ctorIdx := by
  cases widened with
  | same => rfl
  | branch name form => rfl

/-- What was written and is read again, with its symbols or without them, does in every run what the module did:
    it answers the same values after the same number of instructions, and where one run fails the other does. -/
theorem Module.emit_keeps_runs {digest : Bytes → ImageId} {m found : Module} {e : EmittedModule} {name : String}
    {symbols? : Option Bytes} {maxBodySize : Nat} (emitted : m.emit digest = .ok e)
    (noNul : '\x00' ∉ m.runtimeVersion.toList) (noNulPath : ∀ file ∈ m.symbols?, '\x00' ∉ file.path.toList)
    (tells : m.TellsLocals) (given : symbols? = none ∨ symbols? = CompiledModule.symbols? ⟨name, e.code, e.symbols⟩)
    (read : ReadAs name e.code symbols? maxBodySize found) (emulator : Emulator) (fuel : Nat) (token : Token)
    (arguments : List Value) :
    (∀ v after, emulator.invoke found fuel token arguments = some (.ok v, after) ↔
      emulator.invoke m fuel token arguments = some (.ok v, after)) ∧
    (∀ fault after, emulator.invoke m fuel token arguments = some (.error fault, after) →
      ∃ fault', emulator.invoke found fuel token arguments = some (.error fault', after) ∧
        fault.Widened fault' ∧ fault'.ctorIdx = fault.ctorIdx) ∧
    ∀ fault' after, emulator.invoke found fuel token arguments = some (.error fault', after) →
      ∃ fault, emulator.invoke m fuel token arguments = some (.error fault, after) ∧
        fault.Widened fault' ∧ fault'.ctorIdx = fault.ctorIdx := by
  have runs := emulator.invoke_widened (widened_of_read emitted noNul noNulPath tells given read) fuel token arguments
  generalize emulator.invoke m fuel token arguments = run, emulator.invoke found fuel token arguments = run' at runs ⊢
  cases runs with
  | none => exact ⟨fun _ _ => ⟨nofun, nofun⟩, nofun, nofun⟩
  | @some a b both =>
    obtain ⟨result, after⟩ := a
    obtain ⟨result', after'⟩ := b
    obtain ⟨results, same⟩ := both
    dsimp only at results same
    subst same
    cases results with
    | answer v => exact ⟨fun _ _ => Iff.rfl, nofun, nofun⟩
    | @failure fault fault' faults =>
      refine ⟨fun _ _ => ⟨nofun, nofun⟩, fun _ _ h => ?_, fun _ _ h => ?_⟩
      · cases h
        exact ⟨fault', rfl, faults, faults.ctorIdx_eq⟩
      · cases h
        exact ⟨fault, rfl, faults, faults.ctorIdx_eq⟩

namespace Sample

/-- A method that branches over more code than a short branch reaches. -/
def far : MethodDef :=
  { seven with
    body? := some { code := ⟨⟨0x2B⟩, .target 129⟩ :: List.replicate 128 .nop ++ [.ldcI4 7, .ret]
                    locals := [.primitive .int32], localSignature := .ofRow .standAloneSig 1 } }

def farther : Module :=
  { linked with
    types := [{ flags := 0, namespaceName := "", name := "Derived", baseType := .ofRow .typeRef 1, fields := []
                methods := [far] }]
    documents := [], symbols? := none }

def fartherImages : EmittedModule := (farther.emit fun _ => .zero).toOption.getD ⟨[], []⟩

theorem emit_farther : farther.emit (fun _ => .zero) = .ok fartherImages := by
  have succeeds : ((farther.emit fun _ => .zero).toOption.any fun _ => true) = true := by decide +kernel
  obtain ⟨e, emitted, -⟩ := Outcome.exists_of_any succeeds
  rw [fartherImages, emitted]
  rfl

theorem read_farther : ∃ found, Module.readDefinitions "a" fartherImages.code = .ok found := by
  have succeeds : ((Module.readDefinitions "a" fartherImages.code).toOption.any fun _ => true) = true := by decide +kernel
  obtain ⟨found, read, -⟩ := Outcome.exists_of_any succeeds
  exact ⟨found, read⟩

end Sample

theorem Module.emit_keeps_runs_sample : ∃ found, Sample.farther.emit (fun _ => .zero) = .ok Sample.fartherImages ∧
    Module.readDefinitions "a" Sample.fartherImages.code = .ok found ∧
    Emulator.invoke {} found 3 (.ofRow .methodDef 1) [] = some (.ok (.int32 7), ⟨{}, 3⟩) := by
  obtain ⟨found, read⟩ := Sample.read_farther
  have tells : Sample.farther.TellsLocals := by
    intro t typeMember method member b body
    cases List.mem_singleton.mp typeMember
    cases List.mem_singleton.mp member
    cases body
    rfl
  obtain ⟨answers, -, -⟩ := emit_keeps_runs Sample.emit_farther (by decide) (by decide) tells (.inl rfl) (.definitions read)
    {} 3 (.ofRow .methodDef 1) []
  exact ⟨found, Sample.emit_farther, read, (answers _ _).mpr (by decide +kernel)⟩

end CilWeaver
