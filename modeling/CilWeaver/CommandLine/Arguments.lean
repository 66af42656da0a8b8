import CilWeaver.Weave.TimeOfDay

/-!
The arguments of the command line. A value that stands in an argument of its own is taken when the
next argument asks for it, so that an unknown argument behind it is reported first.
-/

namespace CilWeaver

inductive ResolverKind where
  | search
  | runtime
  | chain
deriving DecidableEq

def ResolverKind.ofText? : String → Option ResolverKind
  | "search" => some search
  | "runtime" => some runtime
  | "chain" => some chain
  | _ => none

structure Arguments where
  path : String
  symbols? : Option String := none
  references : List String := []
  defines : List String := []
  resolver : ResolverKind := .chain
  time? : Option TimeOfDay := none
  stripsDeadCode : Bool := false
  isDryRun : Bool := false
  asJson : Bool := false
  isVerbose : Bool := false
deriving DecidableEq

/-- Why the arguments do not say what to weave. -/
inductive UsageStop where
  | help
  | version
  | missingPath
  | unknownArgument
  /-- A value is missing, empty or none of those that are possible. -/
  | invalidValue
  | invalidTime
  /-- An argument is there twice. -/
  | repeated
  /-- A value for an argument that takes none. -/
  | unneededValue
deriving DecidableEq

namespace UsageStop

def name : UsageStop → String
  | help => "DisplayHelp"
  | version => "DisplayVersion"
  | missingPath => "MissingRequiredArgument"
  | unknownArgument => "UnknownArgument"
  | invalidValue => "InvalidValue"
  | invalidTime => "ValueValidation"
  | repeated => "ArgumentConflict"
  | unneededValue => "TooManyValues"

def exitCode : UsageStop → Nat
  | help | version => 0
  | _ => 2

end UsageStop

/-- Arguments that take no value. -/
inductive Switch where
  | json
  | verbose
  | stripDeadCode
  | dryRun
  | help
  | version
deriving DecidableEq

/-- Places for the value of an argument. -/
inductive Slot where
  | path
  | symbols
  | reference
  | define
  | resolver
  | time
deriving DecidableEq

inductive ArgumentName where
  | switch (s : Switch)
  | slot (s : Slot)
deriving DecidableEq

namespace ArgumentName

def ofLong? : String → Option ArgumentName
  | "json" => some (switch .json)
  | "verbose" => some (switch .verbose)
  | "strip-original" => some (switch .stripDeadCode)
  | "dry-run" => some (switch .dryRun)
  | "help" => some (switch .help)
  | "version" => some (switch .version)
  | "symbols" => some (slot .symbols)
  | "reference" => some (slot .reference)
  | "define" => some (slot .define)
  | "resolver" => some (slot .resolver)
  | "time" => some (slot .time)
  | _ => none

def ofShort? : Char → Option ArgumentName
  | 'v' => some (switch .verbose)
  | 'h' => some (switch .help)
  | 'V' => some (switch .version)
  | 'r' => some (slot .reference)
  | 'D' => some (slot .define)
  | _ => none

end ArgumentName

/-- The arguments up to some point of the command line. -/
structure ArgumentScan where
  path? : Option String := none
  symbols? : Option String := none
  references : List String := []
  defines : List String := []
  resolver? : Option ResolverKind := none
  time? : Option TimeOfDay := none
  switches : List Switch := []
  /-- The slot that was named last, and its value if that was there. -/
  pending? : Option (Slot × Option String) := none
  /-- Whether a path was there, taken or pending. -/
  hasPath : Bool := false
  /-- Whether every further argument is a path. -/
  onlyPaths : Bool := false

namespace ArgumentScan

abbrev ScanResult := Except UsageStop ArgumentScan

/-- Fails if a value is there already. -/
def once {α : Type} (value? : Option α) : Except UsageStop Unit :=
  if value?.isSome then throw .repeated else return ()

def nonEmpty (text : String) : Except UsageStop String :=
  if text.isEmpty then throw .invalidValue else return text

def orStop {α : Type} (value? : Option α) (stop : UsageStop) : Except UsageStop α :=
  match value? with
  | none => throw stop
  | some value => return value

/-- Puts a value into its slot. The slot of the path is still free: there is no second path. -/
def assign (s : ArgumentScan) (text : String) : Slot → ScanResult
  | .path => return { s with path? := some (← nonEmpty text) }
  | .symbols => do
    once s.symbols?
    return { s with symbols? := some (← nonEmpty text) }
  | .reference => return { s with references := s.references ++ [text] }
  | .define => return { s with defines := s.defines ++ [text] }
  | .resolver => do
    once s.resolver?
    return { s with resolver? := some (← orStop (ResolverKind.ofText? text) .invalidValue) }
  | .time => do
    once s.time?
    return { s with time? := some (← orStop (TimeOfDay.ofText? text) .invalidTime) }

/-- Takes the pending value. -/
def settle (s : ArgumentScan) : ScanResult :=
  let taken := { s with pending? := none }
  match s.pending? with
  | none => return taken
  | some (_, none) => throw .invalidValue
  | some (slot, some text) => taken.assign text slot

def turnOn (s : ArgumentScan) (switch : Switch) : ScanResult := do
  let s ← s.settle
  match switch with
  | .help => throw .help
  | .version => throw .version
  | _ =>
    if s.switches.contains switch then throw .repeated
    return { s with switches := switch :: s.switches }

/-- Selects a slot, with a value or with the next argument as its value. -/
def select (s : ArgumentScan) (slot : Slot) (value? : Option String) : ScanResult := do
  let s ← s.settle
  match value? with
  | none => return { s with pending? := some (slot, none) }
  | some text => s.assign text slot

def plain (s : ArgumentScan) (text : String) : ScanResult := do
  if s.hasPath then throw .unknownArgument
  let s ← s.settle
  return { s with pending? := some (.path, some text), hasPath := true }

def long (s : ArgumentScan) (name : String) (value? : Option String) : ScanResult :=
  match ArgumentName.ofLong? name with
  | none => throw .unknownArgument
  | some (.slot slot) => s.select slot value?
  | some (.switch switch) => if value?.isSome then throw .unneededValue else s.turnOn switch

/-- Reads the letters behind one dash. What follows the letter of a slot is its value, also behind
    an equals sign. -/
def short (s : ArgumentScan) : List Char → ScanResult
  | [] => return s
  | letter :: rest =>
    match ArgumentName.ofShort? letter with
    | none => throw .unknownArgument
    | some (.switch switch) => do
      let s ← s.turnOn switch
      s.short rest
    | some (.slot slot) =>
      let value? : Option String :=
        match rest with
        | [] => none
        | '=' :: value => some (String.ofList value)
        | value => some (String.ofList value)
      s.select slot value?

/-- An argument without dashes: the value that is still missing, or the path. -/
def word (s : ArgumentScan) (text : String) : ScanResult :=
  match s.pending? with
  | some (slot, none) => return { s with pending? := some (slot, some text) }
  | _ => s.plain text

def next (s : ArgumentScan) (text : String) : ScanResult :=
  if s.onlyPaths then s.plain text
  else
    match text.toList with
    | ['-', '-'] => return { s with onlyPaths := true }
    | '-' :: '-' :: rest =>
      let name := rest.takeWhile (· != '=')
      let value? := (rest.drop name.length).tail?.map String.ofList
      s.long (String.ofList name) value?
    | ['-'] => s.word text
    | '-' :: letters => s.short letters
    | _ => s.word text

def finish (s : ArgumentScan) : Except UsageStop Arguments := do
  let s ← s.settle
  let path ← orStop s.path? .missingPath
  return {
    path
    symbols? := s.symbols?
    references := s.references
    defines := s.defines
    resolver := s.resolver?.getD .chain
    time? := s.time?
    stripsDeadCode := s.switches.contains .stripDeadCode
    isDryRun := s.switches.contains .dryRun
    asJson := s.switches.contains .json
    isVerbose := s.switches.contains .verbose }

end ArgumentScan

/-- Reads the arguments behind the name of the program. -/
def Arguments.parse (arguments : List String) : Except UsageStop Arguments := do
  (← arguments.foldlM ArgumentScan.next {}).finish

end CilWeaver
