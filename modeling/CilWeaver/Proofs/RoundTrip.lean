import CilWeaver.Proofs.Emissions
import CilWeaver.Proofs.Resolution

/-!
Reading undoes writing: the module that is read from the images of a module is its normal form with
the definitions that its references resolve to.
-/

namespace CilWeaver

open Code Step

namespace Module

/-- The name of a module that is read matters for messages only, and so do the methods of its types. -/
theorem sameNames_reread (m : Module) : m.reread.SameNames m := by
  refine ⟨rfl, ?_, ?_, ?_⟩
  · unfold Module.reread
    rw [List.map_map]
    rfl
  · unfold Module.reread
    rw [List.map_map]
    rfl
  · unfold Module.reread
    rw [List.map_map]
    rfl

/-- The module that is read after this one was written, with the answers of a function. -/
def Rereads (f : Symbol → Result Symbol) (m found : Module) : Prop :=
  ∃ types members, m.references = .ok (types, members) ∧ Symbol.Answered f types ∧ Symbol.Answered f members ∧
    found = m.reread.withDefinitions (types.map (Symbol.answer? f)) (members.map (Symbol.answer? f))

/-- The references that are read have their definitions, and nothing else changes. -/
theorem typeRefs_reread (m : Module) (types members : List (Option Symbol)) :
    (m.reread.withDefinitions types members).typeRefs =
      m.typeRefs.zipWith (fun r definition? => { r with definition? }) types := by
  change (m.typeRefs.map _).zipWith _ types = _
  rw [List.zipWith_map_left]

theorem memberRefs_reread (m : Module) (types members : List (Option Symbol)) :
    (m.reread.withDefinitions types members).memberRefs =
      m.memberRefs.zipWith (fun r definition? => { r with definition? }) members := by
  change (m.memberRefs.map _).zipWith _ members = _
  rw [List.zipWith_map_left]

theorem mapError_eq_ok {α : Type} {result : Result α} {a : α} :
    result.mapError asMalformed = .ok a ↔ result = .ok a := by
  cases result with
  | ok b => exact Iff.rfl
  | error e => exact ⟨fun h => (by cases h), fun h => (by cases h)⟩

/-- When reading what was written succeeds, and with which module. -/
theorem read_eq_ok {m found : Module} {e : EmittedModule} {rows : ModuleRows} {d : ModuleDraft}
    {b : TableStreamBuilder} {record? : Option CodeViewRecord} (emitted : m.EmittedAs e rows d b record?)
    (noNul : '\x00' ∉ m.runtimeVersion.toList) (noNulPath : ∀ file ∈ m.symbols?, '\x00' ∉ file.path.toList)
    {f : Symbol → Result Symbol} {options : ReadOptions} {name : String} :
    Module.read (Lookup.ofFunction f) options name e.code (CompiledModule.symbols? ⟨name, e.code, e.symbols⟩) () =
        .ok found () ↔
      (options.symbolsRequired = true → m.symbols?.isSome = true) ∧ m.Readable options.maxBodySize ∧
        e.code.length < 2 ^ 32 ∧ e.symbols.length < 2 ^ 32 ∧ m.Rereads f found := by
  have images := fun found => @ofImages_eq_ok m e rows d b record? emitted noNul noNulPath name options.maxBodySize found
  have given : (CompiledModule.symbols? ⟨name, e.code, e.symbols⟩).isNone = m.symbols?.isNone := by
    rw [emitted.symbols.symbols?_eq]
    cases m.symbols? <;> rfl
  have names : m.reread.references = m.references := m.sameNames_reread.references
  have present : options.symbolsRequired = true → m.symbols?.isSome = true ↔
      (m.symbols?.isNone && options.symbolsRequired) = false := by
    cases m.symbols? <;> cases options.symbolsRequired <;> simp
  rw [present]
  unfold Module.read Rereads
  rw [given]
  by_cases refused : (m.symbols?.isNone && options.symbolsRequired) = true
  · rw [refused]
    constructor
    · intro h
      exact absurd h throw_ne_ok
    · rintro ⟨h, -⟩
      cases h
  · rw [Bool.not_eq_true] at refused
    rw [refused]
    simp only [Bool.false_eq_true, ↓reduceIte, true_and]
    constructor
    · intro h
      cases read : (ofImages name options.maxBodySize e.code
          (CompiledModule.symbols? ⟨name, e.code, e.symbols⟩)).mapError asMalformed with
      | error error =>
        simp only [read] at h
        exact absurd h throw_ne_ok
      | ok m₁ =>
        simp only [read] at h
        obtain ⟨rfl, readable, small, smallSymbols⟩ := (images _).mp (mapError_eq_ok.mp read)
        obtain ⟨types, members, references, answers⟩ := resolve_eq_ok.mp h
        exact ⟨readable, small, smallSymbols, types, members, names ▸ references, answers⟩
    · rintro ⟨readable, small, smallSymbols, types, members, references, answers⟩
      have read := mapError_eq_ok.mpr ((images _).mpr ⟨rfl, readable, small, smallSymbols⟩)
      rw [read]
      exact resolve_eq_ok.mpr ⟨types, members, names ▸ references, answers⟩

/-- Reading undoes writing. What differs is the form of branches that did not fit, what the reader finds out
    itself, and what is written in one form or not at all. -/
theorem read_undoes_emit {digest : Bytes → ImageId} {m found : Module} {e : EmittedModule}
    {f : Symbol → Result Symbol} {options : ReadOptions} {name : String} (emitted : m.emit digest = .ok e)
    (noNul : '\x00' ∉ m.runtimeVersion.toList) (noNulPath : ∀ file ∈ m.symbols?, '\x00' ∉ file.path.toList)
    (read : Module.read (Lookup.ofFunction f) options name e.code (CompiledModule.symbols? ⟨name, e.code, e.symbols⟩) () =
      .ok found ()) :
    ∃ types members, m.references = .ok (types, members) ∧
      types.length = m.typeRefs.length ∧ members.length = m.memberRefs.length ∧
      Symbol.Answered f types ∧ Symbol.Answered f members ∧
      found = { m with
        typeRefs := m.typeRefs.zipWith (fun r reference? => { r with definition? := Symbol.answer? f reference? }) types
        memberRefs :=
          m.memberRefs.zipWith (fun r reference? => { r with definition? := Symbol.answer? f reference? }) members
        types := m.types.map (TypeDef.reread m)
        documents := if m.symbols?.isSome then m.documents else []
        entryPoint := if m.symbols?.isSome then m.entryPoint else .null } ∧
      ∀ t ∈ m.types, ∀ method ∈ t.methods, method.AllBodies fun b =>
        List.Forall₂ Instruction.Widened b.code (b.reread m).code ∧
          m.localTypes b.localSignature = .ok (b.reread m).locals := by
  obtain ⟨rows, d, b, record?, written⟩ := emittedAs_of_emit emitted
  obtain ⟨-, readable, -, -, types, members, references, answeredTypes, answeredMembers, rfl⟩ :=
    (read_eq_ok written noNul noNulPath).mp read
  obtain ⟨typeCount, memberCount⟩ := length_of_references references
  refine ⟨types, members, references, typeCount, memberCount, answeredTypes, answeredMembers, ?_, ?_⟩
  · unfold withDefinitions reread
    simp only [List.zipWith_map_left, List.zipWith_map_right]
  · intro t typeMember method member b body
    obtain ⟨types, locals⟩ := (readable.bodies t typeMember method member b body).locals
    refine ⟨widened_promote b.code, ?_⟩
    unfold MethodBody.reread
    rw [locals]
    rfl

end Module

namespace Sample

/-- A body with a short branch, a local and a hidden point that has columns. -/
def branching : MethodBody :=
  { code := [⟨⟨0x2B⟩, .target 2⟩, .nop, .ldcI4 7, .ret], localSignature := .ofRow .standAloneSig 1
    symbols? := some ⟨1, [⟨0, 1, 3, 1, 3, 9⟩, ⟨2, 1, PointAt.hiddenLine, 4, 7, 7⟩]⟩ }

def seven : MethodDef :=
  { flags := 0x10, implFlags := 0, name := "Seven", signature := [0, 0, 8], params := [], body? := some branching }

/-- A module with a type that extends one of another assembly. -/
def linked : Module :=
  { name := "a"
    runtimeVersion := "v4"
    assemblyRefs := [⟨"b", ⟨1, 0, 0, 0⟩, 0, [], "", []⟩]
    typeRefs := [{ scope := .ofRow .assemblyRef 1, namespaceName := "", name := "Base" }]
    localSignatures := [[7, 1, 8]]
    types := [{ flags := 0, namespaceName := "", name := "Derived", baseType := .ofRow .typeRef 1, fields := []
                methods := [seven] }]
    documents := [⟨"a.cs", .nil, [], .nil⟩]
    symbols? := some ⟨"a.pdb", 1⟩ }

def linkedImages : EmittedModule := (linked.emit fun _ => .zero).toOption.getD ⟨[], []⟩

theorem emit_linked : linked.emit (fun _ => .zero) = .ok linkedImages := by
  have succeeds : (linked.emit fun _ => .zero).toOption.isSome = true := by decide +kernel
  unfold linkedImages
  cases result : linked.emit fun _ => .zero with
  | ok e => rfl
  | error fault =>
    rw [result] at succeeds
    cases succeeds

theorem read_linked : ∃ found, Module.read (Lookup.ofFunction .ok) {} "a" linkedImages.code
    (CompiledModule.symbols? ⟨"a", linkedImages.code, linkedImages.symbols⟩) () = .ok found () := by
  have succeeds : (answer? (Module.read (Lookup.ofFunction .ok) {} "a" linkedImages.code
      (CompiledModule.symbols? ⟨"a", linkedImages.code, linkedImages.symbols⟩) ())).any (fun _ => true) = true := by
    decide +kernel
  obtain ⟨found, read, -⟩ := exists_of_any succeeds
  exact ⟨found, read⟩

end Sample

theorem Module.read_undoes_emit_sample : ∃ found, Sample.linked.emit (fun _ => .zero) = .ok Sample.linkedImages ∧
    Module.read (Lookup.ofFunction .ok) {} "a" Sample.linkedImages.code
      (CompiledModule.symbols? ⟨"a", Sample.linkedImages.code, Sample.linkedImages.symbols⟩) () = .ok found () ∧
    found.types = Sample.linked.types.map (TypeDef.reread Sample.linked) := by
  obtain ⟨found, read⟩ := Sample.read_linked
  obtain ⟨types, members, -, -, -, -, -, same, -⟩ := read_undoes_emit Sample.emit_linked (by decide) (by decide) read
  refine ⟨found, Sample.emit_linked, read, ?_⟩
  rw [same]

end CilWeaver
