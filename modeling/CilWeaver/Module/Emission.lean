import CilWeaver.Image.SymbolStreams

/-!
Writing the images of a module. Both images hold one identifier, which is the digest of the images
with zeros in its place.
-/

namespace CilWeaver

/-- The images of a module; the symbols are empty for a module without a symbol file. -/
structure EmittedModule where
  code : Bytes
  symbols : Bytes
deriving DecidableEq

/-- Both images with the given identifier. -/
def Module.images (m : Module) (file : SymbolFile) (streams : ModuleStreams)
    (symbols : SymbolStreams) (id : ImageId) : Result EmittedModule := do
  let code ← streams.image m.runtimeVersion (some ⟨id, file.age, file.path⟩)
  return ⟨code, ← symbols.image id⟩

def Module.emit (digest : Bytes → ImageId) (m : Module) : Result EmittedModule := do
  let streams ← ModuleStreams.ofModule m
  match m.symbols? with
  | none => return ⟨← streams.image m.runtimeVersion none, []⟩
  | some file => do
    let symbols ← SymbolStreams.ofModule m streams.offsets
    let blank ← m.images file streams symbols .zero
    m.images file streams symbols (digest (blank.code ++ blank.symbols))

end CilWeaver
