import CilWeaver.Table.CodedKind
import CilWeaver.Text.Utf8
import CilWeaver.Token

/-!
What can be wrong with data that is read, and what cannot be stored in a column or heap.
-/

namespace CilWeaver

/-- The columns that name the first row of a run of rows of another table. -/
inductive ListColumn where
  | fields
  | methods
  | params
deriving DecidableEq, Repr

/-- The columns of a row that refer to one of several tables. -/
inductive ReferenceColumn where
  | scope (row : Nat)
  | baseType (row : Nat)
  | parent (row : Nat)
deriving DecidableEq, Repr

/-- The heaps of an image. -/
inductive HeapKind where
  | strings
  | userStrings
  | blobs
  | guids
deriving DecidableEq, Repr

inductive Defect where
  -- numbers and texts
  | compressedLead (first : UInt8)
  | compressedTooLarge (value : Nat)
  | compressedOutOfRange (value : Int)
  | columnOverflow (value : Nat)
  | notUtf8 (start stop : Nat) (fault : Utf8.Fault)
  | truncated
  -- the container of an image
  | imageTooSmall
  | wrongMagic (found : UInt32)
  | rootVersion (major minor : Nat)
  | versionLength (length : Nat)
  | versionNotUtf8
  | noStreams
  | streamOutside (name : String) (offset size : Nat)
  | duplicateStream (name : String)
  | unterminatedStreamName (position : Nat)
  | unknownStream (name : String)
  | versionTooLong (version : String)
  | imageTooLarge
  | streamTooLarge
  -- heaps
  | heapStart (heap : HeapKind)
  | guidHeapSize (size : Nat)
  | stringNotUtf8 (index : Nat)
  | unterminatedString (index : Nat)
  | userStringLength (length index : Nat)
  | userStringNotUtf16 (index : Nat)
  | nulInIdentifier (identifier : String)
  | heapTooLarge (heap : HeapKind)
  -- tables and tokens
  | tablesVersion (major minor : Nat)
  | unsupportedTable (number : Nat)
  | tableWithoutRows (table : Table)
  | tooManyRows (table : Table) (rows : Nat)
  | tableOutside (table : Table)
  | tableOrder (table : Table)
  | tableRowCount (table : Table) (rows expected : Nat)
  | codedTag (tag : Nat) (kind : CodedKind)
  | codedTable (table : Table) (kind : CodedKind)
  | codedToken (token : Token) (kind : CodedKind)
  -- signatures
  | nullTypeToken
  | signatureTooDeep (limit : Nat)
  | arrayRank
  | arraySizes (sizes rank : Nat)
  | arrayBounds (bounds rank : Nat)
  | genericBase (element : UInt8)
  | genericWithoutArguments
  | elementType (element : UInt8)
  | methodHeader (header : UInt8)
  | fieldHeader (header : UInt8)
  | localsHeader (header : UInt8)
  | tooManyLocals (count : Nat)
  | signatureType (type : Token)
  -- method bodies
  | noBodyData
  | tinyBodySize (size : Nat)
  | bodyFormat (header : UInt8)
  | fatHeaderTruncated
  | fatHeaderSize (size expected : Nat)
  | bodySize (size : Nat)
  | sectionMissing
  | sectionKind (kind : Nat)
  | fatSectionSize (size : Nat)
  | smallSectionSize (size : Nat)
  | clauseKind (kind : Nat)
  | tooManyClauses (count : Nat)
  | codeTooLarge
  -- instructions
  | undefinedOpcode (code offset : Nat)
  | literalTable (offset : Nat) (token : Token)
  | switchSize (offset count : Nat)
  | branchNegative (offset : Nat) (target : Int)
  | branchTarget (offset : Nat) (target : Int)
  | instructionTruncated (offset : Nat)
  -- debug records
  | codeViewTooSmall
  | codeViewSignature (found : UInt32)
  | codeViewTruncated
  | pdbTruncated
  | pdbTable (number : Nat)
  | documentNameEmpty
  | documentNameNotUtf8
  | pointsWithoutDocument
  | nullDocumentRecord
  | pointOffsetOverflow
  | pointLines (start stop : Int)
  | pointColumn (column : Int)
  -- module images
  | missingStream (stream : String)
  | pdbStreamInModule
  | ilReserved
  | moduleRows (rows : Nat)
  | assemblyRows (rows : Nat)
  | nullReference (column : ReferenceColumn)
  | danglingReference (column : ReferenceColumn) (token : Token)
  | listStart (column : ListColumn) (row start total : Nat)
  | listOrder (column : ListColumn) (row : Nat)
  | literalWithoutHeap
  | literalIndex (index : Nat)
  | typeRefMissing (token : Token)
  | scopeUnsupported (token scope : Token)
  | scopeTooDeep (token : Token) (limit : Nat)
  -- bodies of a module image
  | bodyOutside (method : String) (address : Nat)
  | bodyTooLong (method : String) (size limit : Nat)
  | operandDangling (mnemonic method : String) (offset : Nat) (token : Token)
  | localsDangling (method : String) (token : Token)
  | regionStart (method : String) (offset : Nat)
  | regionEnd (method : String) (offset length : Nat)
  | catchDangling (method : String) (token : Token)
  | regionKind (method : String) (kind : Nat)
  | inMethod (method : String) (defect : Defect)
  -- symbol images
  | symbolsMissing (name : String)
  | noDebugRecord (name : String)
  | missingSymbolStream (stream : String)
  | symbolsMismatch
  | symbolsMethodCount (written actual : Nat)
  | symbolsUncounted
  | debugRowCount (rows methods : Nat)
  | pointsWithoutBody (method : String)
  | pointDocument (method : String) (document : Nat)
  | pointOffset (method : String) (offset : Nat)
  | entryPoint (token : Token) (name : String)
deriving DecidableEq

open Text (decimal hex integer)

def ListColumn.name : ListColumn → String
  | fields => "FieldList"
  | methods => "MethodList"
  | params => "ParamList"

def ReferenceColumn.text : ReferenceColumn → String
  | scope row => s!"Resolution scope of TypeRef {decimal row}"
  | baseType row => s!"Base type of TypeDef {decimal row}"
  | parent row => s!"Parent of MemberRef {decimal row}"

def HeapKind.streamName : HeapKind → String
  | strings => "#Strings"
  | userStrings => "#US"
  | blobs => "#Blob"
  | guids => "#GUID"

/-- A byte offset in code. -/
def offsetLabel (offset : Nat) : String := "IL_" ++ hex offset 4

def Utf8.Fault.message (f : Utf8.Fault) : String :=
  match f.length with
  | some length => s!"invalid utf-8 sequence of {decimal length} bytes from index {decimal f.index}"
  | none => s!"incomplete utf-8 byte sequence from index {decimal f.index}"

def Defect.message : Defect → String
  | compressedLead first => s!"Invalid compressed uint - {decimal first.toNat}"
  | compressedTooLarge value => s!"Value 0x{hex value} can not be stored as compressed integer"
  | compressedOutOfRange value =>
    s!"Value {integer value} can not be stored as compressed signed integer"
  | columnOverflow value => s!"Index {decimal value} does not fit a 2-byte column"
  | notUtf8 start stop fault =>
    s!"Invalid UTF-8 string at offset {decimal start}-{decimal stop}: {fault.message}"
  | truncated => "Read past the end of the data"
  | imageTooSmall => "Image too small for a metadata root"
  | wrongMagic found => s!"CIL_HEADER_MAGIC does not match - 0x{hex found.toNat 8}"
  | rootVersion major minor =>
    s!"Unsupported metadata root version {decimal major}.{decimal minor}"
  | versionLength length => s!"Version string length {decimal length} is too large"
  | versionNotUtf8 => "Version string is not valid UTF-8"
  | noStreams => "No streams have been found"
  | streamOutside name offset size =>
    s!"Stream {name} at {decimal offset}+{decimal size} reaches outside of the image"
  | duplicateStream name => s!"Duplicate stream - {name}"
  | unterminatedStreamName position =>
    s!"Stream name at offset {decimal position} is not terminated"
  | unknownStream name => s!"Invalid stream header name - {name}"
  | versionTooLong version => "Version string '" ++ version ++ "' is too long"
  | imageTooLarge => "Image exceeds 4GB"
  | streamTooLarge => "Stream exceeds 4GB"
  | heapStart .blobs => "Invalid memory for #Blob heap"
  | heapStart heap => s!"Provided {heap.streamName} heap is empty"
  | guidHeapSize size => s!"#GUID heap size {decimal size} is not a multiple of 16"
  | stringNotUtf8 index => s!"Invalid string at index - {decimal index}"
  | unterminatedString index => s!"Unterminated string at index - {decimal index}"
  | userStringLength length index =>
    s!"Invalid user string length {decimal length} at index - {decimal index}"
  | userStringNotUtf16 index => s!"Invalid UTF-16 user string at index - {decimal index}"
  | nulInIdentifier identifier => "Identifier '" ++ identifier ++ "' contains a null character"
  | heapTooLarge .userStrings => "#US heap exceeds the 24-bit token range"
  | heapTooLarge heap => s!"{heap.streamName} heap exceeds 4GB"
  | tablesVersion major minor =>
    s!"Unsupported table stream version {decimal major}.{decimal minor}"
  | unsupportedTable number => s!"Unsupported metadata table 0x{hex number 2}"
  | tableWithoutRows table => s!"Unsupported metadata table {table.name}"
  | tooManyRows table rows =>
    s!"Table {table.name} has {decimal rows} rows, more than a token can address"
  | tableOutside table => s!"Table {table.name} reaches past the end of the #~ stream"
  | tableOrder table => s!"Table {table.name} added out of order"
  | tableRowCount table rows expected =>
    s!"Table {table.name} has {decimal rows} rows, layout expects {decimal expected}"
  | codedTag tag kind => s!"Invalid tag {decimal tag} for coded index {kind.name}"
  | codedTable table kind => s!"Table {table.name} is not part of {kind.name}"
  | codedToken token kind => s!"Token {token.text} can not be stored as {kind.name}"
  | nullTypeToken => "Null type token in signature"
  | signatureTooDeep limit => s!"Signature nests more than {decimal limit} types"
  | arrayRank => "Array signature with rank 0"
  | arraySizes sizes rank =>
    s!"Array signature has {decimal sizes} sizes for rank {decimal rank}"
  | arrayBounds bounds rank =>
    s!"Array signature has {decimal bounds} lower bounds for rank {decimal rank}"
  | genericBase element =>
    s!"GENERICINST - Next byte is not TYPE_CLASS or TYPE_VALUE - {decimal element.toNat}"
  | genericWithoutArguments => "GENERICINST without type arguments"
  | elementType element => s!"Unsupported ELEMENT_TYPE - {decimal element.toNat}"
  | methodHeader header => s!"Invalid method signature header - {decimal header.toNat}"
  | fieldHeader header => s!"SignatureField - invalid start - {decimal header.toNat}"
  | localsHeader header => s!"SignatureLocalVar - invalid start - {decimal header.toNat}"
  | tooManyLocals count => s!"SignatureLocalVar - {decimal count} locals"
  | signatureType type => s!"Signature refers to missing type {type.text}"
  | noBodyData => "Provided data for body parsing is empty"
  | tinyBodySize size => s!"Tiny method body of {decimal size} bytes exceeds the available data"
  | bodyFormat header => s!"MethodHeader is neither FAT nor TINY - {decimal header.toNat}"
  | fatHeaderTruncated => "Fat method header is truncated"
  | fatHeaderSize size expected =>
    s!"Fat method header has size {decimal size}, expected {decimal expected}"
  | bodySize size => s!"Method code of {decimal size} bytes exceeds the available data"
  | sectionMissing => "Exception section announced but missing"
  | sectionKind kind => s!"Unsupported method data section - 0x{hex kind 2}"
  | fatSectionSize size => s!"Invalid fat exception section size {decimal size}"
  | smallSectionSize size => s!"Invalid small exception section size {decimal size}"
  | clauseKind kind => s!"Invalid exception clause kind - {decimal kind}"
  | tooManyClauses count => s!"{decimal count} exception clauses do not fit"
  | codeTooLarge => "Method code exceeds 4GB"
  | undefinedOpcode code offset => s!"Undefined opcode 0x{hex code} at offset {decimal offset}"
  | literalTable offset token =>
    s!"ldstr at offset {decimal offset} uses token {token.text} outside of the #US heap"
  | switchSize offset count =>
    s!"switch at offset {decimal offset} declares {decimal count} targets beyond the code"
  | branchNegative offset target => s!"Branch at offset {decimal offset} targets {integer target}"
  | branchTarget offset target =>
    s!"Branch at offset {decimal offset} targets {integer target} which is not an instruction start"
  | instructionTruncated offset => s!"Instruction at offset {decimal offset} is truncated"
  | codeViewTooSmall => "#CV stream too small"
  | codeViewSignature found => s!"Invalid #CV signature - 0x{hex found.toNat 8}"
  | codeViewTruncated => "#CV stream truncated"
  | pdbTruncated => "#Pdb stream truncated"
  | pdbTable number => s!"#Pdb references unsupported table 0x{hex number 2}"
  | documentNameEmpty => "Empty document name blob"
  | documentNameNotUtf8 => "Document name part is not valid UTF-8"
  | pointsWithoutDocument => "Sequence points without a document"
  | nullDocumentRecord => "Document record with a null document"
  | pointOffsetOverflow => "Sequence point IL offset overflows"
  | pointLines start stop =>
    s!"Sequence point lines {integer start}-{integer stop} out of range"
  | pointColumn column => s!"Sequence point column {integer column} out of range"
  | missingStream stream => s!"Module image has no {stream} stream"
  | pdbStreamInModule => "Module image contains a #Pdb stream"
  | ilReserved => "#IL stream does not start with its reserved bytes"
  | moduleRows rows => s!"Module table has {decimal rows} rows, expected exactly one"
  | assemblyRows rows => s!"Assembly table has {decimal rows} rows, expected at most one"
  | nullReference column => s!"{column.text} is null"
  | danglingReference column token => s!"{column.text} refers to missing row {token.text}"
  | listStart column row start total =>
    s!"{column.name} of row {decimal row} points to {decimal start} of {decimal total} rows"
  | listOrder column row => s!"{column.name} is not monotonic at row {decimal row}"
  | literalWithoutHeap => "ldstr without a #US stream"
  | literalIndex index => s!"ldstr refers to invalid #US index 0x{hex index}"
  | typeRefMissing token => s!"TypeRef {token.text} does not exist"
  | scopeUnsupported token scope =>
    s!"TypeRef {token.text} has unsupported resolution scope {scope.text}"
  | scopeTooDeep token limit =>
    s!"TypeRef {token.text} is nested deeper than {decimal limit} levels"
  | bodyOutside method address =>
    s!"Body of {method} at 0x{hex address} is outside of the #IL stream"
  | bodyTooLong method size limit =>
    s!"Body of {method} has {decimal size} bytes of code, the limit is {decimal limit}"
  | operandDangling mnemonic method offset token =>
    s!"{mnemonic} of {method} at {offsetLabel offset} refers to missing row {token.text}"
  | localsDangling method token => s!"Locals of {method} refer to missing signature {token.text}"
  | regionStart method offset =>
    s!"Exception region of {method} starts at 0x{hex offset}, not an instruction start"
  | regionEnd method offset length =>
    s!"Exception region of {method} ends at 0x{hex offset}+0x{hex length}, "
      ++ "not an instruction boundary"
  | catchDangling method token => s!"Catch clause of {method} refers to missing type {token.text}"
  | regionKind method kind => s!"Unknown exception clause kind 0x{hex kind} in {method}"
  | inMethod method defect => s!"{method}: {defect.message}"
  | symbolsMissing name => s!"{name} was supplied without its symbol image"
  | noDebugRecord name => s!"{name} has no debug record to match its symbol image against"
  | missingSymbolStream stream => s!"Symbol image has no {stream} stream"
  | symbolsMismatch => "Symbol image id does not match the module's debug record"
  | symbolsMethodCount written actual =>
    s!"Symbol image was written for {decimal written} method(s), the module has {decimal actual}"
  | symbolsUncounted => "Symbol image does not record the module's MethodDef row count"
  | debugRowCount rows methods =>
    s!"Symbol image has {decimal rows} MethodDebugInformation rows for {decimal methods} method(s)"
  | pointsWithoutBody method => s!"{method} has sequence points but no body"
  | pointDocument method document =>
    s!"Sequence point of {method} refers to missing document {decimal document}"
  | pointOffset method offset =>
    s!"Sequence point of {method} at {offsetLabel offset} is not an instruction start"
  | entryPoint token name => s!"Entry point {token.text} is not a method of {name}"

end CilWeaver
