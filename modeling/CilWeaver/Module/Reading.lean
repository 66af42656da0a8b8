import CilWeaver.Module.FromImage
import CilWeaver.Reference.Catalog

/-!
Reading a module and resolving its references to other assemblies. The look-up of symbols is a
parameter, with a state of its own.
-/

namespace CilWeaver

structure ReadOptions where
  symbolsRequired : Bool := true
  maxBodySize : Nat := Module.defaultMaxBodySize
deriving DecidableEq

/-- How symbols are looked up; `σ` is what the look-up remembers. -/
abbrev Lookup (σ : Type) := Symbol → EStateM Error σ Symbol

/-- A look-up without memory. -/
def Lookup.ofFunction (f : Symbol → Result Symbol) : Lookup Unit := fun reference =>
  match f reference with
  | .ok definition => return definition
  | .error e => throw e

namespace Module

/-- The type that `token`, a reference at the end of a chain of scopes, stands for. `names` are the
    names of the references that were passed, outermost first, and `current` is the next one. A type
    of the module itself is not a reference to another assembly. -/
def typeReferenceWithin (m : Module) (token : Token) (names : List String) :
    (fuel : Nat) → (current : Token) → Result (Option TypeName)
  | 0, _ => .error (.malformed (.scopeTooDeep token maxNesting))
  | fuel + 1, current =>
    match rowOf? m.typeRefs current.row with
    | none => .error (.malformed (.typeRefMissing current))
    | some r =>
      let names := r.name :: names
      if r.scope.isIn .typeRef then m.typeReferenceWithin token names fuel r.scope
      else if r.scope.isIn .assemblyRef then
        .ok ((rowOf? m.assemblyRefs r.scope.row).map fun a =>
          ⟨a.name, r.namespaceName, "/".intercalate names⟩)
      else if r.scope.isIn .module then .ok none
      else .error (.malformed (.scopeUnsupported token r.scope))

/-- The type of another assembly that a reference stands for. -/
def typeReference (m : Module) (token : Token) : Result (Option TypeName) :=
  m.typeReferenceWithin token [] (maxNesting + 1) token

/-- The types that the references of the module stand for, in the order of their rows. -/
def typeReferences (m : Module) : Result (List (Option TypeName)) :=
  (List.range m.typeRefs.length).mapM fun i => m.typeReference (.ofRow .typeRef (i + 1))

/-- The member that a reference to a member of one of `types` stands for. -/
def memberReference (m : Module) (types : List (Option TypeName)) (r : MemberRef) :
    Result (Option MemberName) := do
  let declaring? :=
    if r.parent.isIn .typeRef then (rowOf? types r.parent.row).join else none
  match declaring? with
  | none => return none
  | some declaring =>
    let (kind, signature) ← m.memberSignature r.signature
    return some ⟨declaring, r.name, kind, signature⟩

/-- The symbols that the references of the module stand for. -/
def references (m : Module) : Result (List (Option Symbol) × List (Option Symbol)) := do
  let types ← m.typeReferences
  let members ← m.memberRefs.mapM (m.memberReference types)
  return (types.map (·.map .type), members.map (·.map .member))

variable {σ : Type}

/-- The definition of a symbol; the failure names the symbol. -/
def resolveOne (lookup : Lookup σ) (reference : Symbol) : EStateM Error σ Symbol := fun s =>
  match lookup reference s with
  | .ok definition s => .ok definition s
  | .error e s => .error (.unresolved reference.text e) s

/-- The definitions of those symbols that there are. -/
def resolveAll (lookup : Lookup σ) (references : List (Option Symbol)) :
    EStateM Error σ (List (Option Symbol)) :=
  references.mapM fun reference? =>
    match reference? with
    | some reference => some <$> resolveOne lookup reference
    | none => pure none

/-- Resolves the references to types first, then those to members. -/
def resolve (lookup : Lookup σ) (m : Module) : EStateM Error σ Module := do
  match m.references with
  | .error e => throw e
  | .ok (types, members) =>
    let types ← resolveAll lookup types
    let members ← resolveAll lookup members
    return { m with
      typeRefs := m.typeRefs.zipWith (fun r definition? => { r with definition? }) types
      memberRefs := m.memberRefs.zipWith (fun r definition? => { r with definition? }) members }

/-- Reads a module from its images. The `name` is the one that messages carry. -/
def read (lookup : Lookup σ) (options : ReadOptions) (name : String) (code : Bytes)
    (symbols? : Option Bytes) : EStateM Error σ Module := do
  if symbols?.isNone && options.symbolsRequired then throw (.malformed (.symbolsMissing name))
  match (ofImages name options.maxBodySize code symbols?).mapError asMalformed with
  | .error e => throw e
  | .ok m => m.resolve lookup

end Module

end CilWeaver
