import CilWeaver.Reference.SearchPath

/-!
Resolvers find the definition of a symbol: in a catalog, on a search path, or by asking other
resolvers one after the other.
-/

namespace CilWeaver

inductive Resolver where
  | catalog (catalog : Catalog)
  | searchPath (path : SearchPath)
  | chain (resolvers : List Resolver)

namespace Resolver

/-- The answer of a catalog that may have the symbol. -/
def answer (reference : Symbol) (found? : Option Symbol) : Result Symbol :=
  match found? with
  | some definition => .ok definition
  | none => .error (.notFound reference.text)

mutual

/-- The definition of a symbol, and the resolver with what it has learnt on the way. -/
def resolve (reference : Symbol) : Resolver → Result Symbol × Resolver
  | catalog c => (answer reference (c.find? reference), catalog c)
  | searchPath s =>
    let (catalog?, s) := s.catalog reference.assembly
    (answer reference (catalog?.bind (·.find? reference)), searchPath s)
  | chain resolvers =>
    let (result, resolvers) := resolveFirst reference resolvers
    (result, chain resolvers)

/-- Asks resolvers in order, until one has an answer other than that it does not know the symbol. -/
def resolveFirst (reference : Symbol) : List Resolver → Result Symbol × List Resolver
  | [] => (.error (.notFound reference.text), [])
  | r :: rs =>
    match resolve reference r with
    | (.error (.notFound _), r) =>
      let (result, rs) := resolveFirst reference rs
      (result, r :: rs)
    | (result, r) => (result, r :: rs)

end

/-- Looks up a symbol with a resolver as the state. -/
def lookup (reference : Symbol) : EStateM Error Resolver Symbol := fun r =>
  match resolve reference r with
  | (.ok definition, r) => .ok definition r
  | (.error e, r) => .error e r

end Resolver

end CilWeaver
