import CilWeaver.Text.Utf8

/-!
Texts of paths: names between slashes. Empty names and single dots mean nothing, except that a dot
at the start keeps its place when a path is taken apart.
-/

namespace CilWeaver

namespace Path

/-- Cuts a text at its last `mark`; nothing is returned when there is none. -/
def splitLast? (mark : Char) (text : List Char) : Option (List Char × List Char) :=
  let after := text.reverse.takeWhile (· != mark)
  match text.reverse.drop after.length with
  | [] => none
  | _ :: before => some (before.reverse, after.reverse)

/-- The text in front of the last dot, or all of it. -/
def stem (name : String) : String :=
  match splitLast? '.' name.toList with
  | some (before, _) => String.ofList before
  | none => name

/-- Drops what stands at the end of a path without a meaning: slashes, and dots behind slashes. -/
def trimEnd : (reversed : List Char) → List Char
  | '/' :: rest => if rest.isEmpty then ['/'] else trimEnd rest
  | '.' :: rest => if rest.head? == some '/' then trimEnd rest else '.' :: rest
  | reversed => reversed

/-- The path up to its last name, reversed. -/
def trimmed (path : String) : List Char := trimEnd path.toList.reverse

/-- The last name of a path that names something in a directory, and what stands in front of it. -/
def splitName? (path : String) : Option (List Char × List Char) :=
  let reversed := trimmed path
  let name := (reversed.takeWhile (· != '/')).reverse
  if name.isEmpty || name == ['.'] || name == ['.', '.'] then none
  else some ((reversed.drop name.length).reverse, name)

def fileName? (path : String) : Option String := (splitName? path).map fun (_, n) => String.ofList n

/-- The path of the directory around, which is empty for a name alone. -/
def parent? (path : String) : Option String :=
  match trimmed path with
  | [] => none
  | ['/'] => none
  | reversed =>
    let front := reversed.dropWhile (· != '/')
    some (String.ofList (trimEnd front).reverse)

/-- A path inside a directory; an absolute path replaces it. -/
def join (directory path : String) : String :=
  if path.startsWith "/" || directory.isEmpty then path
  else if directory.endsWith "/" then directory ++ path
  else directory ++ "/" ++ path

/-- Replaces the last name. -/
def withFileName (path name : String) : String :=
  if (fileName? path).isSome then join ((parent? path).getD "") name else join path name

/-- The extension of a name: what stands behind its last dot, unless that dot is the first
    character. -/
def extension? (name : List Char) : Option (List Char) :=
  match splitLast? '.' name with
  | some (before, extension) => if before.isEmpty then none else some extension
  | none => none

/-- Cuts the extension off the last name and puts another one there. A path without a last name
    stays as it is. -/
def setExtension (path extension : String) : String :=
  match splitName? path with
  | none => path
  | some (front, name) =>
    let stem := match extension? name with
      | some old => name.take (name.length - old.length - 1)
      | none => name
    String.ofList (front ++ stem) ++ "." ++ extension

/-- Replaces the extension of a path. The length of the old one is cut off at the end of the text
    first, which leaves some paths without a last name. -/
def withExtension (path extension : String) : String :=
  match (splitName? path).bind fun (_, name) => extension? name with
  | some old =>
    let text := path.toList
    setExtension (String.ofList (text.take (text.length - old.length))) extension
  | none => setExtension path extension

end Path

/-- Where the symbols of a module are, unless a caller says otherwise. -/
def symbolsPath (modulePath : String) : String := Path.withExtension modulePath "pdb"

end CilWeaver
