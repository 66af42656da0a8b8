import CilWeaver.Image.Root
import CilWeaver.Proofs.Answers
import CilWeaver.Proofs.Roots
import CilWeaver.Proofs.StrictParsers

/-!
Strict readers of roots. The streams of a root that was read are slices of the image.
-/

namespace CilWeaver

open Partly (Gives)
open StrictReader (Agrees AgreesAt)

namespace StreamHeader

/-- Nothing but the data bounds the number of steps. -/
noncomputable def strictReadNameFrom (start size : Nat) (done : List Char) : StrictReader String :=
  StrictReader.loop (fun read : Nat × List Char => do
    let b ← StrictReader.byte
    if b == 0 then return .inr (String.ofList read.2.reverse)
    if read.1 == StreamName.maxSize then StrictReader.malformed (.unterminatedStreamName start)
    let c := Char.ofNat b.toNat
    return .inl (read.1 + c.utf8Size, c :: read.2)) (size, done)

theorem strictReadNameFrom_eq (start size : Nat) (done : List Char) : strictReadNameFrom start size done = (do
    let b ← StrictReader.byte
    if b == 0 then return String.ofList done.reverse
    if size == StreamName.maxSize then StrictReader.malformed (.unterminatedStreamName start)
    let c := Char.ofNat b.toNat
    strictReadNameFrom start (size + c.utf8Size) (c :: done)) := by
  unfold strictReadNameFrom
  rw [StrictReader.loop_eq, bind_assoc]
  refine bind_congr fun b => ?_
  split
  · rw [pure_bind, Sum.elim_inr]
  · split <;> simp only [bind_assoc, pure_bind, Sum.elim_inl]

noncomputable def strictReadName : StrictReader String := do strictReadNameFrom (← StrictReader.position) 0 []

noncomputable def strictRead : StrictReader StreamHeader := do
  let offset ← StrictReader.u32
  let size ← StrictReader.u32
  let name ← strictReadName
  StrictReader.align 4
  if !StreamName.known.contains name then StrictReader.malformed (.unknownStream name)
  return ⟨name, offset.toNat, size.toNat⟩

/-- A byte is read in each step, so the steps end with the data. -/
theorem agreesAt_readNameFrom {data : Bytes} {position fuel : Nat} (inside : position ≤ data.length)
    (enough : data.length - position < fuel) (start size : Nat) (done : List Char) :
    AgreesAt data position (strictReadNameFrom start size done) (readNameFrom start size done fuel) := by
  induction fuel generalizing position size done with
  | zero => exact absurd enough (Nat.not_lt_zero _)
  | succ fuel ih =>
    rw [strictReadNameFrom_eq]
    refine (Agrees.byte data position inside).bind fun b stop _ within run => ?_
    refine .ite (fun _ => .pure _ within) fun _ => .check fun _ => ih within ?_ _ _
    have next : stop = position + 1 := StrictReader.position_of_byte run
    omega

theorem agrees_readName : Agrees strictReadName readName := by
  intro data position inside
  have enough : data.length - position < (data.drop position).length + 1 := by
    rw [List.length_drop]
    omega
  have loop := agreesAt_readNameFrom inside enough position 0 []
  exact ⟨fun run => loop.fails run, fun run => loop.answers run⟩

theorem agrees_read : Agrees strictRead StreamHeader.read :=
  Agrees.u32.bind fun _ => Agrees.u32.bind fun _ => agrees_readName.bind fun _ =>
    (Agrees.align (by decide)).bind fun _ => .check fun _ => .pure _

end StreamHeader

namespace Root

noncomputable def strictReadHeaders (imageSize : Nat) (done : List StreamHeader) : (count : Nat) → StrictReader (List StreamHeader)
  | 0 => return done.reverse
  | count + 1 => do
    let h ← StreamHeader.strictRead
    if 2 ^ 32 ≤ h.offset + h.size || imageSize < h.offset + h.size then
      StrictReader.malformed (.streamOutside h.name h.offset h.size)
    if done.any (·.name == h.name) then StrictReader.malformed (.duplicateStream h.name)
    strictReadHeaders imageSize (h :: done) count

noncomputable def strictRead (imageSize : Nat) : StrictReader Root := do
  let signature ← StrictReader.u32.orDefect .imageTooSmall
  if signature != magic then StrictReader.malformed (.wrongMagic signature)
  let major ← StrictReader.u16
  let minor ← StrictReader.u16
  if major != 1 || minor != 1 then StrictReader.malformed (.rootVersion major.toNat minor.toNat)
  let _ ← StrictReader.u32
  let versionSize := (← StrictReader.u32).toNat
  if maxVersionSize < versionSize then StrictReader.malformed (.versionLength versionSize)
  let field ← StrictReader.take versionSize
  let text ← StrictReader.need (Partly.slice field 0 (field.findIdx (· == 0)))
  let some version := Utf8.decode? text
    | StrictReader.malformed .versionNotUtf8
  let flags ← StrictReader.u16
  let count ← StrictReader.u16
  if count == 0 then StrictReader.malformed .noStreams
  let streams ← strictReadHeaders imageSize [] count.toNat
  return ⟨major, minor, String.ofList version, flags, streams⟩

noncomputable def strictParse (data : Bytes) : Partly Root := (strictRead data.length).parse data

def strictStream? (root : Root) (data : Bytes) (name : String) : Partly (Option Bytes) :=
  (root.streams.find? (·.name == name)).mapM fun h => Partly.need (Partly.slice data h.offset (h.offset + h.size))

theorem agrees_readHeaders (imageSize : Nat) (done : List StreamHeader) (count : Nat) :
    Agrees (strictReadHeaders imageSize done count) (readHeaders imageSize done count) := by
  induction count generalizing done with
  | zero => exact .pure _
  | succ count ih => exact StreamHeader.agrees_read.bind fun h => .check fun _ => .check fun _ => ih (h :: done)

theorem takeWhile_eq_take (field : Bytes) : field.takeWhile (· != 0) = field.take (field.findIdx (· == 0)) := by
  have same : (fun b : UInt8 => !(b != 0)) = fun b => b == 0 := by
    funext b
    exact Bool.not_not _
  rw [List.takeWhile_eq_take_findIdx_not, same]

theorem slice_to_zero (field : Bytes) :
    Partly.slice field 0 (field.findIdx (· == 0)) = some (field.takeWhile (· != 0)) := by
  rw [Partly.slice_of_le (Nat.zero_le _) List.findIdx_le_length, takeWhile_eq_take]
  rfl

theorem gives_parse (data : Bytes) : (strictParse data).Gives (Root.parse data) := by
  refine Agrees.parse ?_ data
  refine (Agrees.u32.orDefect _).bind fun _ => .check fun _ => Agrees.u16.bind fun _ => Agrees.u16.bind fun _ => ?_
  refine .check fun _ => Agrees.u32.bind fun _ => Agrees.u32.bind fun _ => .check fun _ => ?_
  refine (Agrees.take _).bind fun field => .need (slice_to_zero field) ?_
  cases Utf8.decode? (field.takeWhile (· != 0)) with
  | none => exact .malformed _
  | some version =>
    refine Agrees.u16.bind fun _ => Agrees.u16.bind fun count => .check fun _ => ?_
    exact (agrees_readHeaders _ _ _).bind fun _ => .pure _

/-- The streams of a root lie inside of the image. -/
def Within (root : Root) (data : Bytes) : Prop := ∀ h ∈ root.streams, Inside data.length h

theorem answers_readHeaders {imageSize : Nat} {done : List StreamHeader} (count : Nat)
    (inside : ∀ h ∈ done, Inside imageSize h) :
    (readHeaders imageSize done count).Answers fun headers => ∀ h ∈ headers, Inside imageSize h := by
  induction count generalizing done with
  | zero => exact .pure fun h member => inside h (List.mem_reverse.mp member)
  | succ count ih =>
    refine .bind fun header => .ite (fun _ => .malformed_bind _) fun good => .check (ih ?_)
    have first : Inside imageSize header := inside_iff.mp (Bool.eq_false_iff.mpr good)
    exact List.forall_mem_cons.mpr ⟨first, inside⟩

theorem within_of_parse {data : Bytes} {root : Root} (parsed : Root.parse data = .ok root) : root.Within data := by
  have answers : (Root.read data.length).Answers fun root => root.Within data := by
    refine .bind fun _ => .check (.bind fun _ => .bind fun _ => .check (.bind fun _ => .bind fun _ => .check ?_))
    refine .bind fun field => ?_
    cases Utf8.decode? (field.takeWhile (· != 0)) with
    | none => exact .malformed _
    | some version =>
      have headers := fun count => @answers_readHeaders data.length [] count
        fun h member => absurd member List.not_mem_nil
      exact .bind fun _ => .bind fun count => .check (.bind_of (headers count.toNat) fun _ inside => .pure inside)
  exact answers.parse parsed

theorem Within.gives_stream {root : Root} {data : Bytes} (within : root.Within data) (name : String) :
    (root.strictStream? data name).Gives (.ok (root.stream? data name)) := by
  unfold strictStream? stream?
  cases found : root.streams.find? (·.name == name) with
  | none => exact .pure none
  | some h =>
    have inside := (within h (List.mem_of_find?_eq_some found)).2
    have slice : Partly.slice data h.offset (h.offset + h.size) = some ((data.drop h.offset).take h.size) := by
      rw [Partly.slice_of_le (Nat.le_add_right _ _) inside, Nat.add_sub_cancel_left]
    change (some <$> Partly.need (Partly.slice data h.offset (h.offset + h.size))).Gives _
    rw [slice]
    exact .pure _

end Root

end CilWeaver
