/-!
Symbols: types and members of types, with the assembly they belong to. A reference asks for a symbol
and a definition provides one.
-/

namespace CilWeaver

/-- A name behind its namespace, if there is one. -/
def qualifiedName (namespaceName name : String) : String :=
  if namespaceName.isEmpty then name else namespaceName ++ "." ++ name

/-- A type. The `name` of a nested type starts with the names of the types around it, outermost
    first, each followed by a slash. -/
structure TypeName where
  assembly : String
  namespaceName : String
  name : String
deriving DecidableEq, Repr

def TypeName.fullName (t : TypeName) : String := qualifiedName t.namespaceName t.name

def TypeName.text (t : TypeName) : String := "[" ++ t.assembly ++ "]" ++ t.fullName

inductive MemberKind where
  | method
  | field
deriving DecidableEq, Repr

/-- A member of a type. The normalized `signature` tells overloads apart. -/
structure MemberName where
  declaring : TypeName
  name : String
  kind : MemberKind
  signature : String
deriving DecidableEq, Repr

def MemberName.text (m : MemberName) : String := m.declaring.text ++ "::" ++ m.name

inductive Symbol where
  | type (name : TypeName)
  | member (name : MemberName)
deriving DecidableEq, Repr

namespace Symbol

/-- The type itself, or the type that declares the member. -/
def typeName : Symbol → TypeName
  | type t => t
  | member m => m.declaring

def assembly (s : Symbol) : String := s.typeName.assembly

def text : Symbol → String
  | type t => t.text
  | member m => m.text

end Symbol

end CilWeaver
