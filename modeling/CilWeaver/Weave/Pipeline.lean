import CilWeaver.Module.Emission
import CilWeaver.Module.Reading
import CilWeaver.Weave.Weaving

/-!
From the images of a module to its woven images.
-/

namespace CilWeaver

/-- A compiled module; a module without symbols has empty ones. -/
structure CompiledModule where
  name : String
  code : Bytes
  symbols : Bytes
deriving DecidableEq

structure WovenModule where
  images : EmittedModule
  report : WeaveReport
deriving DecidableEq

namespace CompiledModule

variable {σ : Type}

def symbols? (input : CompiledModule) : Option Bytes :=
  if input.symbols.isEmpty then none else some input.symbols

/-- Reads a module, weaves it and writes it. -/
def weave (digest : Bytes → ImageId) (lookup : Lookup σ) (time : TimeOfDay)
    (policy : DeadCodePolicy) (input : CompiledModule) : EStateM Error σ WovenModule := do
  let m ← Module.read lookup {} input.name input.code input.symbols?
  let (woven, report) := m.weave time policy
  match woven.emit digest with
  | .ok images => return ⟨images, report⟩
  | .error e => throw e

/-- Weaves modules one after the other with one look-up; each has a result of its own. -/
def weaveAll (digest : Bytes → ImageId) (lookup : Lookup σ) (time : TimeOfDay)
    (policy : DeadCodePolicy) : List CompiledModule → StateM σ (List (Result WovenModule))
  | [] => return []
  | input :: inputs => do
    let result ← fun s =>
      match weave digest lookup time policy input s with
      | .ok output s => (Except.ok output, s)
      | .error e s => (Except.error e, s)
    return result :: (← weaveAll digest lookup time policy inputs)

end CompiledModule

end CilWeaver
