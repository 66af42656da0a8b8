import CilWeaver.Debug.CodeView
import CilWeaver.Debug.DocumentName
import CilWeaver.Debug.PdbStream
import CilWeaver.Debug.SequencePoints
import CilWeaver.Heap.Guids
import CilWeaver.Heap.Strings
import CilWeaver.Heap.UserStrings
import CilWeaver.Image.Root
import CilWeaver.Instruction.Decode
import CilWeaver.Method.RawBody
import CilWeaver.Proofs.Failures
import CilWeaver.Signature.Reader

/-!
The readers of heaps, tables, bodies, signatures and points blame the data when they fail.
-/

namespace CilWeaver

open Outcome (BlamesData FailsWith)

/-! The heaps -/

theorem StringHeap.blamesData_parse (data : Bytes) : BlamesData (StringHeap.parse data) := .ite (.ok _) (.malformed _)

theorem StringHeap.blamesData_get (h : StringHeap) (index : Nat) : BlamesData (h.get index) := by
  unfold StringHeap.get
  dsimp only
  refine .ite .outOfBounds (.ite (.malformed _) ?_)
  split
  · exact .ok _
  · exact .malformed _

theorem BlobHeap.blamesData_parse (data : Bytes) : BlamesData (BlobHeap.parse data) := .ite (.ok _) (.malformed _)

theorem BlobHeap.blamesData_get (h : BlobHeap) (index : Nat) : BlamesData (h.get index) :=
  Reader.BlamesData.parse (.bind .compressed fun size => .take size) _

theorem GuidHeap.blamesData_parse (data : Bytes) : BlamesData (GuidHeap.parse data) := .ite (.ok _) (.malformed _)

theorem GuidHeap.blamesData_get (h : GuidHeap) (index : Nat) : BlamesData (h.get index) := by
  unfold GuidHeap.get
  refine .ite (.ok _) ?_
  split
  · exact .ok _
  · exact .outOfBounds

theorem UserStringHeap.blamesData_parse (data : Bytes) : BlamesData (UserStringHeap.parse data) :=
  .ite (.ok _) (.malformed _)

/-! Images and tables -/

theorem StreamHeader.blamesData_readNameFrom (start size : Nat) (done : List Char) (fuel : Nat) :
    (readNameFrom start size done fuel).BlamesData := by
  induction fuel generalizing size done with
  | zero => exact .throw rfl
  | succ fuel ih => exact .bind .byte fun b => .ite (.pure _) (.check (ih _ _))

theorem StreamHeader.blamesData_read : StreamHeader.read.BlamesData := by
  have name : readName.BlamesData := fun c => blamesData_readNameFrom c.position 0 [] (c.rest.length + 1) c
  exact .bind .u32 fun _ => .bind .u32 fun _ => .bind name fun _ => .bind (.align 4) fun _ => .check (.pure _)

theorem Root.blamesData_readHeaders (imageSize : Nat) (done : List StreamHeader) (count : Nat) :
    (readHeaders imageSize done count).BlamesData := by
  induction count generalizing done with
  | zero => exact .pure _
  | succ count ih => exact .bind StreamHeader.blamesData_read fun h => .check (.check (ih _))

theorem Root.blamesData_parse (data : Bytes) : BlamesData (Root.parse data) := by
  apply Reader.BlamesData.parse
  refine .bind (.orDefect _ _) fun _ => .check (.bind .u16 fun _ => .bind .u16 fun _ => .check (.bind .u32 fun _ =>
    .bind .u32 fun _ => .check (.bind (.take _) fun field => ?_)))
  split
  · exact .bind .u16 fun _ => .bind .u16 fun _ => .check (.bind (blamesData_readHeaders _ _ _) fun _ => .pure _)
  · exact .malformed _

theorem CodedIndex.blamesData_decode (kind : CodedKind) (value : Nat) : BlamesData (CodedIndex.decode kind value) := by
  unfold CodedIndex.decode
  dsimp only
  split
  · exact .ok _
  · exact .malformed _

theorem Layout.blamesData_readColumn (l : Layout) (c : Column) : (l.readColumn c).BlamesData := by
  cases c with
  | word => exact .u16
  | double => exact .u32
  | string => exact .column _
  | guid => exact .column _
  | blob => exact .column _
  | row t => exact .column _
  | coded kind =>
    refine .bind (.column _) fun value => ?_
    have blames := CodedIndex.blamesData_decode kind value
    split
    · exact .pure _
    · rename_i e failed
      exact .throw (blames e failed)

theorem Layout.blamesData_readValues (l : Layout) (cs : List Column) : (l.readValues cs).BlamesData := by
  induction cs with
  | nil => exact .pure _
  | cons c cs ih => exact .bind (l.blamesData_readColumn c) fun v => .bind ih fun vs => .pure _

namespace TableStream

theorem blamesData_readCount (allowed : List Table) (number : Nat) : (readCount allowed number).BlamesData := by
  unfold readCount
  split
  · exact .malformed _
  · exact .bind .u32 fun _ => .check (.pure _)

theorem blamesData_place (layout : Layout) (size offset : Nat) (counts : List (Table × Nat)) :
    BlamesData (place layout size offset counts) := by
  induction counts generalizing offset with
  | nil => exact .ok _
  | cons count counts ih =>
    unfold place
    split
    · exact .ite (.malformed _) (.bind (ih _) fun _ => .pure _)
    · exact .malformed _

theorem blamesData_parse (allowed : List Table) (data : Bytes) : BlamesData (TableStream.parse allowed data) := by
  have header : (readHeader allowed).BlamesData :=
    .bind .u32 fun _ => .bind .byte fun _ => .bind .byte fun _ => .check (.bind .byte fun _ => .bind .byte fun _ =>
      .bind .u64 fun _ => .bind .u64 fun _ => .bind (.mapM (blamesData_readCount allowed) _) fun _ => .pure _)
  unfold TableStream.parse EStateM.run
  cases run : readHeader allowed (.start data) with
  | ok found c => exact .bind (blamesData_place _ _ _ _) fun _ => .pure _
  | error e c =>
    intro e' same
    cases same
    exact header _ e c run

theorem blamesData_rows (s : TableStream) (ρ : Type) [TableRow ρ] : BlamesData (s.rows ρ) := by
  apply FailsWith.map
  unfold values
  split
  · exact .ok _
  · exact Reader.BlamesData.parse (.times (s.layout.blamesData_readValues _) _) _

end TableStream

/-! Bodies and their code -/

namespace StoredBody

theorem blamesData_readClauseFlags (number : Nat) : (readClauseFlags number).BlamesData := by
  unfold readClauseFlags
  split
  · exact .pure _
  · exact .malformed _

theorem blamesData_readSmallClause : readSmallClause.BlamesData :=
  .bind .u16 fun _ => .bind (blamesData_readClauseFlags _) fun _ => .bind .u16 fun _ => .bind .byte fun _ =>
    .bind .u16 fun _ => .bind .byte fun _ => .bind .u32 fun _ => .pure _

theorem blamesData_readFatClause : readFatClause.BlamesData :=
  .bind .u32 fun _ => .bind (blamesData_readClauseFlags _) fun _ => .bind .u32 fun _ => .bind .u32 fun _ =>
    .bind .u32 fun _ => .bind .u32 fun _ => .bind .u32 fun _ => .pure _

theorem blamesData_readSection : readSection.BlamesData := by
  refine .bind (.orDefect _ _) fun _ => .bind (.orDefect _ _) fun _ => .check (.ite ?_ ?_)
  · exact .bind (.bind (.take 3) fun _ => .check (.times blamesData_readFatClause _)) fun _ => .pure _
  · refine .bind (.bind .byte fun _ => .bind .u16 fun _ => .check ?_) fun _ => .pure _
    exact .times blamesData_readSmallClause _

theorem blamesData_readSections (done : List Clause) (fuel : Nat) : (readSections done fuel).BlamesData := by
  induction fuel generalizing done with
  | zero => exact .malformed _
  | succ fuel ih => exact .bind blamesData_readSection fun _ => .ite (ih _) (.pure _)

theorem blamesData_parse (data : Bytes) : BlamesData (StoredBody.parse data) := by
  apply Reader.BlamesData.parse
  refine .bind (.orDefect _ _) fun first => .ite ?_ (.ite ?_ (.malformed _))
  · exact .bind (.skip 1) fun _ => .bind (.orDefect _ _) fun _ => .bind .position fun _ => .pure _
  · refine .bind .remaining fun _ => .check (.bind .u16 fun _ => .bind .u16 fun _ => .bind .u32 fun _ => .bind .u32 fun _ =>
      .check (.bind (.orDefect _ _) fun _ => .ite ?_ ?_))
    · exact .bind .remaining fun _ => .bind (blamesData_readSections _ _) fun _ => .bind .position fun _ => .pure _
    · exact .bind (.pure _) fun _ => .bind .position fun _ => .pure _

end StoredBody

namespace OperandAt

theorem blamesData_mapM {τ σ : Type} {f : τ → Result σ} (each : ∀ t, BlamesData (f t)) (o : OperandAt τ) :
    BlamesData (o.mapM f) := by
  cases o with
  | target t => exact .map (each t) _
  | switch ts => exact .map (.mapM each ts) _
  | _ => exact .ok _

end OperandAt

namespace Code

variable {literal : Nat → Result String}

theorem blamesData_readOperand (literals : ∀ index, BlamesData (literal index)) (start : Nat) (kind : OperandKind) :
    (readOperand literal start kind).BlamesData := by
  cases kind with
  | none => exact .pure _
  | int8 => exact .bind .byte fun _ => .pure _
  | uint8 => exact .bind .byte fun _ => .pure _
  | int32 => exact .bind .u32 fun _ => .pure _
  | int64 => exact .bind .u64 fun _ => .pure _
  | float32 => exact .bind .u32 fun _ => .pure _
  | float64 => exact .bind .u64 fun _ => .pure _
  | shortSlot => exact .bind .byte fun _ => .pure _
  | slot => exact .bind .u16 fun _ => .pure _
  | token => exact .bind .u32 fun _ => .pure _
  | string => exact .bind .u32 fun _ => .check (.bind (.ofResult (literals _)) fun _ => .pure _)
  | shortTarget => exact .bind .byte fun _ => .bind .position fun _ => .pure _
  | target => exact .bind .u32 fun _ => .bind .position fun _ => .pure _
  | switch =>
    exact .bind .u32 fun _ => .bind .remaining fun _ => .check (.bind (.times .u32 _) fun _ => .bind .position fun _ =>
      .pure _)

theorem blamesData_readRaw (literals : ∀ index, BlamesData (literal index)) : (readRaw literal).BlamesData := by
  have opcode : readOpCode.BlamesData := .bind .byte fun _ => .ite (.bind .byte fun _ => .pure _) (.pure _)
  refine .bind .position fun start => .bind opcode fun opcode => ?_
  split
  · exact .malformed _
  · exact .bind (blamesData_readOperand literals _ _) fun _ => .pure _

theorem blamesData_decode (literals : ∀ index, BlamesData (literal index)) (code : Bytes) :
    BlamesData (decode literal code) := by
  have one : Reader.BlamesData do
      let start ← Reader.position
      return (start, ← (readRaw literal).mapError (truncatedAt start)) := by
    refine .bind .position fun start => .bind (.mapError (blamesData_readRaw literals) fun e fault => ?_) fun _ => .pure _
    cases e <;> trivial
  refine .bind (Reader.BlamesData.parse (.untilEnd one) code) fun scanned => .bind (.mapM (fun found => ?_) _) fun _ => .pure _
  refine .map (OperandAt.blamesData_mapM (fun target => ?_) _) _
  unfold resolve
  split
  · exact .ok _
  · exact .malformed _

end Code

/-! Signatures -/

namespace SignatureReader

theorem blamesData_typeToken : typeToken.BlamesData := by
  refine .bind .compressed fun value => ?_
  have blames := CodedIndex.blamesData_decode .typeDefOrRef value
  split
  · rename_i e failed
    exact .throw (blames e failed)
  · exact .check (.pure _)

theorem blamesData_arrayShape : arrayShape.BlamesData :=
  .bind .compressed fun _ => .check (.bind .compressed fun _ => .check (.bind (.times .compressed _) fun _ =>
    .bind .compressed fun _ => .check (.bind (.times .compressedInt _) fun _ => .pure _)))

variable {type : Reader TypeSig}

theorem blamesData_parameters (types : type.BlamesData) (marked : Bool) (declared extra : List TypeSig) (count : Nat) :
    (parameters type marked declared extra count).BlamesData := by
  induction count generalizing marked declared extra with
  | zero => exact .pure _
  | succ count ih =>
    refine .ite (.bind (.pure _) fun mark => ?_) (.bind (.map .peek _) fun mark => ?_)
    all_goals
      apply Reader.BlamesData.ite
      · exact .bind (.skip 1) fun _ => .bind types fun _ => .ite (ih _ _ _) (ih _ _ _)
      · exact .bind types fun _ => .ite (ih _ _ _) (ih _ _ _)

theorem blamesData_methodWith (types : type.BlamesData) : (methodWith type).BlamesData := by
  refine .bind .byte fun header => .check (.ite (.bind .compressed fun _ => ?_) (.bind (.pure 0) fun _ => ?_))
  all_goals
    exact .bind .compressed fun _ => .bind types fun _ => .bind (blamesData_parameters types _ _ _ _) fun _ => .pure _

theorem blamesData_typeWithin (budget : Nat) : (typeWithin budget).BlamesData := by
  induction budget with
  | zero => exact .malformed _
  | succ budget ih =>
    refine .bind .byte fun element => ?_
    split
    · exact .pure _
    · apply Reader.BlamesData.ite (.bind ih fun _ => .pure _)
      apply Reader.BlamesData.ite (.bind ih fun _ => .pure _)
      apply Reader.BlamesData.ite (.bind ih fun _ => .pure _)
      apply Reader.BlamesData.ite (.bind ih fun _ => .pure _)
      apply Reader.BlamesData.ite (.bind blamesData_typeToken fun _ => .pure _)
      apply Reader.BlamesData.ite (.bind blamesData_typeToken fun _ => .pure _)
      apply Reader.BlamesData.ite (.bind .compressed fun _ => .pure _)
      apply Reader.BlamesData.ite (.bind .compressed fun _ => .pure _)
      apply Reader.BlamesData.ite (.bind ih fun _ => .bind blamesData_arrayShape fun _ => .pure _)
      apply Reader.BlamesData.ite
      · exact .bind .peek fun _ => .check (.bind ih fun _ => .bind .compressed fun _ => .check (.bind (.times ih _) fun _ =>
          .pure _))
      apply Reader.BlamesData.ite (.bind (blamesData_methodWith ih) fun _ => .pure _)
      exact .ite (.bind blamesData_typeToken fun _ => .bind ih fun _ => .pure _) (.malformed _)

end SignatureReader

namespace Signature

open SignatureReader

theorem blamesData_parseMethod (blob : Bytes) : BlamesData (parseMethod blob) :=
  Reader.BlamesData.parse (blamesData_methodWith (blamesData_typeWithin _)) blob

theorem blamesData_parseField (blob : Bytes) : BlamesData (parseField blob) :=
  Reader.BlamesData.parse (.bind .byte fun _ => .check (blamesData_typeWithin _)) blob

theorem blamesData_parseLocals (blob : Bytes) : BlamesData (parseLocals blob) :=
  Reader.BlamesData.parse (.bind .byte fun _ => .check (.bind .compressed fun _ => .check
    (.times (blamesData_typeWithin _) _))) blob

end Signature

/-! Debug records and points -/

theorem CodeViewRecord.blamesData_parse (data : Bytes) : BlamesData (CodeViewRecord.parse data) :=
  Reader.BlamesData.parse (.bind (.orDefect _ _) fun _ => .check (.bind (.bind (.orDefect _ _) fun _ => .pure _) fun _ =>
    .bind .u32 fun _ => .bind .zeroTerminated fun _ => .pure _)) data

theorem PdbStream.blamesData_parse (data : Bytes) : BlamesData (PdbStream.parse data) := by
  have rows (number : Nat) : (readRows number).BlamesData := by
    unfold readRows
    split
    · exact .malformed _
    · exact .bind .u32 fun _ => .pure _
  exact Reader.BlamesData.parse (.bind (.bind (.orDefect _ _) fun _ => .pure _) fun _ => .bind .u32 fun _ => .bind .u64 fun _ =>
    .bind (.mapM rows _) fun _ => .pure _) data

theorem DocumentName.blamesData_parse (heap : BlobHeap) (data : Bytes) : BlamesData (DocumentName.parse heap data) := by
  have part : (readPart heap).BlamesData := by
    refine .bind .compressed fun index => .bind (.ofResult (heap.blamesData_get index)) fun bytes => ?_
    split
    · exact .pure _
    · exact .malformed _
  exact Reader.BlamesData.parse (.bind (.orDefect _ _) fun _ => .bind (.untilEnd part) fun _ => .pure _) data

namespace SequencePoints

theorem blamesData_readDocument (null : Defect) : (readDocument null).BlamesData :=
  .bind .compressed fun _ => .check (.pure _)

theorem blamesData_checkColumn (column : Int) : (checkColumn column).BlamesData := .check (.pure _)

theorem blamesData_readVisible (offset : UInt32) (c : Context) (lines : Nat) (columns : Int) :
    (readVisible offset c lines columns).BlamesData := by
  unfold readVisible
  split
  · exact .bind .compressed fun _ => .bind .compressed fun _ => .bind (.pure _) fun _ =>
      .check (.bind (blamesData_checkColumn _) fun _ => .bind (blamesData_checkColumn _) fun _ => .pure _)
  · exact .bind .compressedInt fun _ => .bind .compressedInt fun _ => .bind (.pure _) fun _ =>
      .check (.bind (blamesData_checkColumn _) fun _ => .bind (blamesData_checkColumn _) fun _ => .pure _)

theorem blamesData_readPoint (c : Context) (offset : UInt32) : (readPoint c offset).BlamesData := by
  refine .bind .compressed fun lines => .ite (.bind (.map .compressed _) fun _ => ?_) (.bind .compressedInt fun _ => ?_)
  all_goals exact .ite (.pure _) (.bind (blamesData_readVisible _ _ _ _) fun _ => .pure _)

theorem blamesData_readRecord (c : Context) : (readRecord c).BlamesData := by
  refine .bind .compressed fun step => ?_
  split
  · exact .bind (blamesData_readPoint _ _) fun _ => .pure _
  · exact .ite (.bind (blamesData_readDocument _) fun _ => .pure _) (.check (.bind (blamesData_readPoint _ _) fun _ => .pure _))

theorem blamesData_readRecords (c : Context) (done : List SequencePoint) (fuel : Nat) :
    (readRecords c done fuel).BlamesData := by
  induction fuel generalizing c done with
  | zero => exact .pure _
  | succ fuel ih =>
    refine .bind .hasMore fun more => .ite (.bind (blamesData_readRecord c) fun found => ?_) (.pure _)
    split
    · exact ih _ _
    · exact ih _ _

theorem blamesData_parse (blob : Bytes) (document : UInt32) : BlamesData (SequencePoints.parse blob document) := by
  apply Reader.BlamesData.parse
  refine .bind .compressed fun _ => .ite (.bind (blamesData_readDocument _) fun _ => ?_) (.bind (.pure document) fun _ => ?_)
  all_goals exact .bind .remaining fun _ => .bind (blamesData_readRecords _ _ _) fun _ => .pure _

end SequencePoints

end CilWeaver
