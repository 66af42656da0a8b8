import CilWeaver.CommandLine.Arguments
import CilWeaver.CommandLine.Report
import CilWeaver.CommandLine.WriteBack
import CilWeaver.Digest.Sha1
import CilWeaver.File.Basic
import CilWeaver.Reference.CoreLibrary
import CilWeaver.Reference.Resolver
import CilWeaver.Weave.Pipeline

/-!
One run of the program: weaves a module and its symbols in place.
-/

namespace CilWeaver

/-- What a run comes to: the files to change, and what to print when they are changed. -/
structure RunOutcome where
  changes : List FileChange
  text : String

namespace Arguments

/-- The result of a step, with what it was about if it failed. -/
def doing {α : Type} (context : String) (result : Result α) : Except RunFault α :=
  result.mapError fun e => ⟨context, .library e⟩

def symbolsPath (a : Arguments) : String := a.symbols?.getD (CilWeaver.symbolsPath a.path)

def policy (a : Arguments) : DeadCodePolicy := if a.stripsDeadCode then .strip else .preserve

def load (a : Arguments) (tree : FileTree) : Except RunFault CompiledModule := do
  let file ← doing s!"failed to open {a.path}" (ModuleFile.openIn tree a.path a.symbolsPath)
  return ⟨file.name, file.code.data, (file.symbols?.map (·.data)).getD []⟩

/-- The directory of the module and the references, in this order. -/
def searchPath (a : Arguments) (tree : FileTree) : Except RunFault SearchPath :=
  let around := (Path.parent? a.path).getD ""
  let start : SearchPath := { tree }
  a.references.foldlM (fun s path => doing s!"failed to load reference {path}" (s.addPath path))
    (start.addDirectory (if around.isEmpty then "." else around))

def makeResolver (a : Arguments) (tree : FileTree) : Except RunFault Resolver := do
  match a.resolver with
  | .search => return .searchPath (← a.searchPath tree)
  | .runtime => return .catalog CoreLibrary.catalog
  | .chain => return .chain [.searchPath (← a.searchPath tree), .catalog CoreLibrary.catalog]

/-- Weaves without changing a file. The time is `now` unless the arguments give one. -/
def weave (a : Arguments) (now : TimeOfDay) (tree : FileTree) : Except RunFault RunOutcome := do
  let input ← a.load tree
  let resolver ← a.makeResolver tree
  let weaving := input.weave Sha1.digest Resolver.lookup (a.time?.getD now) a.policy
  let output ← doing s!"failed to weave {a.path}"
    (match weaving resolver with
      | .ok output _ => .ok output
      | .error e _ => .error e)
  let summary : WeaveSummary := ⟨a.path, a.symbolsPath, output.report, !a.isDryRun⟩
  return {
    changes :=
      if a.isDryRun then []
      else [⟨a.path, output.images.code⟩, ⟨a.symbolsPath, output.images.symbols⟩]
    text := if a.asJson then summary.json else summary.text }

/-- Weaves and changes the files. The text is what to print. -/
def run (a : Arguments) (now : TimeOfDay) : RunAction String := do
  match a.weave now (← get).tree with
  | .error fault => throw fault
  | .ok outcome =>
    FileChange.writeBack outcome.changes
    return outcome.text

end Arguments

end CilWeaver
