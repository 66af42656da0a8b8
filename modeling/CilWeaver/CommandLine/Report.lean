import CilWeaver.Text.Width
import CilWeaver.Text.Json
import CilWeaver.Weave.Weaving

/-!
What the program says about a woven module, as text and as data.
-/

namespace CilWeaver

structure WeaveSummary where
  path : String
  symbolsPath : String
  report : WeaveReport
  isWritten : Bool

namespace WeaveSummary

open Text

def heading (s : WeaveSummary) : String :=
  let count := decimal s.report.methods.length
  let constant := integer s.report.constant.toInt
  let note := if s.isWritten then "" else ", not written"
  s!"{s.path}: {count} method(s) woven at {s.report.time.text} (ldc.i4 {constant}){note}"

def methodTable (methods : List WovenMethod) : List String :=
  let row (m : WovenMethod) : List String := [m.token.upperText, m.typeName, m.method]
  if methods.isEmpty then []
  else (tableLines (["TOKEN", "TYPE", "METHOD"] :: methods.map row)).map ("  " ++ ·)

def skippedLine (m : WovenMethod) : String :=
  s!"  skipped {m.typeName}::{m.method} ({m.token.upperText}): no body"

/-- The lines for a reader. -/
def text (s : WeaveSummary) : String :=
  let lines := s.heading :: methodTable s.report.methods ++ s.report.skipped.map skippedLine
  String.join (lines.map (· ++ "\n"))

def methodData (m : WovenMethod) : Json :=
  .object [("type_name", .string m.typeName), ("method", .string m.method),
    ("token", .string m.token.upperText)]

/-- The fields for a program. There is no list of skipped methods if none was skipped. -/
def data (s : WeaveSummary) : Json :=
  let skipped := s.report.skipped.map methodData
  .object ([("module", .string s.path), ("symbols", .string s.symbolsPath),
    ("time", .string s.report.time.text), ("constant", .number s.report.constant.toInt),
    ("written", .bool s.isWritten), ("methods", .array (s.report.methods.map methodData))]
    ++ if skipped.isEmpty then [] else [("skipped", .array skipped)])

def json (s : WeaveSummary) : String := s.data.pretty ++ "\n"

end WeaveSummary

end CilWeaver
