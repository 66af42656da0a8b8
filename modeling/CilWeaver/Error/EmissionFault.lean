import CilWeaver.Error.Defect
import CilWeaver.Instruction.Text

/-!
Why a module, or a part of one, cannot be written.
-/

namespace CilWeaver

/-- The places of a module that hold a token. -/
inductive TokenPlace where
  | scope
  | baseType
  | parent
  | catchClause
  | localSignature
  | operand (mnemonic : String) (index : Nat)
deriving DecidableEq

inductive EmissionFault where
  -- operands
  | undefinedOpcode (index code : Nat)
  | branchTarget (index : Nat) (mnemonic : String) (target count : Nat)
  | switchTarget (index target count : Nat)
  | operandMismatch (operand : Operand) (index : Nat) (mnemonic : String)
  | literalIndex (index : Nat)
  -- positions inside a body
  | regionRange (number start stop count : Nat)
  | filterStart (number start count : Nat)
  | pointPosition (instruction count : Nat)
  | pointOrder (instruction : Nat)
  | pointDocument (instruction document documents : Nat)
  | clauses (defect : Defect)
  -- sequence points
  | noDocument
  | pointWithoutDocument (offset : Nat)
  | firstDocument (document : Nat)
  | pointNotAfter (offset previous : Nat)
  | pointLines (offset start stop : Nat)
  | pointExtent (offset line startColumn endColumn : Nat)
  -- tokens
  | unencodableToken (token : Token) (kind : CodedKind)
  | danglingToken (place : TokenPlace) (token : Token)
  | notLocalSignature (token : Token)
  | entryPoint (token : Token)
  | codeTooLarge
deriving DecidableEq

open Text (decimal hex)

def TokenPlace.text : TokenPlace → String
  | scope => "resolution scope"
  | baseType => "base type"
  | parent => "parent"
  | catchClause => "catch clause"
  | localSignature => "local signature"
  | operand mnemonic index => s!"{mnemonic} at instruction {decimal index}"

def EmissionFault.message : EmissionFault → String
  | undefinedOpcode index code =>
    s!"instruction {decimal index} uses the undefined opcode 0x{hex code}"
  | branchTarget index mnemonic target count =>
    s!"instruction {decimal index} ({mnemonic}) branches to index {decimal target} "
      ++ s!"of {decimal count}"
  | switchTarget index target count =>
    s!"switch at {decimal index} targets index {decimal target} of {decimal count}"
  | operandMismatch operand index mnemonic =>
    s!"operand {operand.detail} of instruction {decimal index} does not fit {mnemonic}"
  | literalIndex index => s!"string literal index 0x{hex index} exceeds the token range"
  | regionRange number start stop count =>
    s!"exception region {decimal number} covers {decimal start}..{decimal stop} of {decimal count} "
      ++ "instructions"
  | filterStart number start count =>
    s!"filter of exception region {decimal number} starts at {decimal start} of {decimal count}"
  | pointPosition instruction count =>
    s!"sequence point at instruction {decimal instruction} of {decimal count}"
  | pointOrder instruction =>
    s!"sequence points at instruction {decimal instruction} are duplicated or out of order"
  | pointDocument instruction document documents =>
    s!"sequence point at instruction {decimal instruction} uses document {decimal document} of "
      ++ decimal documents
  | clauses defect => "Malformed - " ++ defect.message
  | noDocument => "no document for an empty list"
  | pointWithoutDocument offset => s!"{offsetLabel offset} has no document"
  | firstDocument document => s!"first point is not in document {decimal document}"
  | pointNotAfter offset previous =>
    s!"{offsetLabel offset} does not follow {offsetLabel previous}"
  | pointLines offset start stop =>
    s!"{offsetLabel offset} has invalid lines {decimal start}-{decimal stop}"
  | pointExtent offset line startColumn endColumn =>
    s!"{offsetLabel offset} has no extent "
      ++ s!"({decimal line}:{decimal startColumn}-{decimal endColumn})"
  | unencodableToken token kind => s!"token {token.text} can not be stored as {kind.name}"
  | danglingToken place token => s!"{place.text} refers to missing row {token.text}"
  | notLocalSignature token => s!"local signature {token.text} is not a StandAloneSig"
  | entryPoint token => s!"entry point {token.text} is not a method of the module"
  | codeTooLarge => "#IL stream exceeds 4GB"

end CilWeaver
