import CilWeaver.Proofs.RoundTrip
import CilWeaver.Proofs.StreamRanges

/-!
The identifier that ties the two images of a module together. Each image has one place of twenty bytes for it, and
nothing else depends on the identifier: no other byte, and not whether the images can be built. So both images hold the
digest of themselves with zeros in these places.
-/

namespace CilWeaver

/-- The bytes of an image in front of its identifier and behind it. -/
structure IdFrame where
  front : Bytes
  back : Bytes

def IdFrame.fill (f : IdFrame) (id : ImageId) : Bytes := f.front ++ id.bytes ++ f.back

/-- The root of an image as it was built, which is also what is read of it as long as offsets can reach its end. -/
structure Root.Heads (root : Root) (image : Bytes) : Prop where
  built : ∃ version streams, Root.build version streams = .ok image ∧ root.streams = Root.headersOf version streams
  read : image.length < 2 ^ 32 → Root.parse image = .ok root

/-- The image has a stream of the name, which is read as the given one, and the identifier stands behind so many bytes
    of it. -/
def IdFrame.InStream (f : IdFrame) (image : Bytes) (name : String) (skipped : Nat) (stream : Bytes) : Prop :=
  ∃ root : Root, root.Heads image ∧ root.stream? image name = some stream ∧
    ∃ header ∈ root.streams, header.name = name ∧ f.front.length = header.offset + skipped

theorem Root.heads_of_build {version : String} {streams : List (String × Bytes)} {image : Bytes} (good : Root.Streams streams)
    (built : Root.build version streams = .ok image) :
    Root.Heads { Root.ofStreams version streams with version := beforeNul version } image :=
  ⟨⟨version, streams, built, rfl⟩, Root.parse_build_beforeNul built good⟩

/-- Streams of which one has a place for an identifier. -/
structure IdStreams where
  before : List (String × Bytes)
  name : String
  front : Bytes
  back : Bytes
  after : List (String × Bytes)

namespace IdStreams

variable (s : IdStreams)

def fill (id : ImageId) : List (String × Bytes) := s.before ++ (s.name, s.front ++ id.bytes ++ s.back) :: s.after

theorem alike (id id' : ImageId) : Root.Alike (fun _ _ => True) (s.fill id) (s.fill id') := by
  have same (streams : List (String × Bytes)) : Root.Alike (fun _ _ => True) streams streams :=
    List.forall₂_same.mpr fun _ _ => ⟨rfl, .refl _ _⟩
  have length : (s.front ++ id'.bytes ++ s.back).length = (s.front ++ id.bytes ++ s.back).length := by
    simp only [List.length_append, id.length_eq, id'.length_eq]
  exact List.rel_append (same s.before) (.cons ⟨rfl, length, fun _ _ => trivial⟩ (same s.after))

theorem headersOf_fill (version : String) (id id' : ImageId) :
    Root.headersOf version (s.fill id) = Root.headersOf version (s.fill id') := by
  unfold Root.headersOf
  rw [(s.alike id' id).rootSize_eq, (s.alike id' id).headersFrom_eq]

/-- What fills the stream with the identifier up to a multiple of four. -/
def filler : Bytes := zeros (padding 4 (s.front ++ ImageId.zero.bytes ++ s.back).length)

theorem contents_fill (id : ImageId) :
    Root.contents (s.fill id) = Root.contents s.before ++ s.front ++ id.bytes ++ (s.back ++ s.filler ++ Root.contents s.after) := by
  have padded : padTo 4 (s.front ++ id.bytes ++ s.back) = s.front ++ id.bytes ++ s.back ++ s.filler := by
    unfold padTo filler
    simp only [List.length_append, id.length_eq, ImageId.zero.length_eq]
  calc Root.contents (s.fill id)
    _ = Root.contents s.before ++ Root.contents ((s.name, s.front ++ id.bytes ++ s.back) :: s.after) := List.flatMap_append
    _ = _ := by
      rw [Root.contents_cons, padded]
      simp only [List.append_assoc]

/-- The image of the streams around the identifier. -/
def frame (version : String) : IdFrame :=
  ⟨Root.start version (s.fill .zero).length ++ (Root.headersOf version (s.fill .zero)).flatMap StreamHeader.bytes ++
    (Root.contents s.before ++ s.front), s.back ++ s.filler ++ Root.contents s.after⟩

variable {s} {version : String}

/-- If the streams make an image with one identifier, they make one with any other, around which the bytes are the same. -/
theorem build_fill {id₀ : ImageId} {image : Bytes} (built : Root.build version (s.fill id₀) = .ok image) (id : ImageId) :
    Root.build version (s.fill id) = .ok ((s.frame version).fill id) := by
  -- the directory depends on the names and sizes of the streams, and these are the same for all identifiers
  have again := (s.alike id₀ id).build version
  rw [built] at again
  generalize made : Root.build version (s.fill id) = result at again
  cases again with
  | ok differ =>
    obtain ⟨-, -, rfl⟩ := Root.build_eq made
    have count : (s.fill id).length = (s.fill .zero).length := (s.alike .zero id).length_eq.symm
    rw [s.headersOf_fill version id .zero, count, contents_fill]
    simp only [IdFrame.fill, frame, List.append_assoc]

theorem inStream_frame {id : ImageId} {data : Bytes} (built : Root.build version (s.fill id) = .ok ((s.frame version).fill id))
    (good : Root.Streams (s.fill id)) (found : (s.fill id).lookup s.name = some data) :
    (s.frame version).InStream ((s.frame version).fill id) s.name s.front.length (padTo 4 data) := by
  refine ⟨_, Root.heads_of_build good built, ?_, ?_⟩
  · exact (Root.stream?_ofStreams built s.name).trans (congrArg (Option.map (padTo 4)) found)
  · let size := (padTo 4 (s.front ++ id.bytes ++ s.back)).length
    refine ⟨⟨s.name, Root.rootSize version (s.fill id) + (Root.contents s.before).length, size⟩, ?_, rfl, ?_⟩
    · change _ ∈ Root.headersFrom _ (s.fill id)
      rw [fill, Root.headersFrom_append]
      exact List.mem_append_right _ List.mem_cons_self
    · have root := Root.length_front version (s.fill .zero)
      dsimp only [frame]
      rw [List.length_append, root, List.length_append, (s.alike .zero id).rootSize_eq, Nat.add_assoc]

/-- Streams that have names of their own. -/
theorem exists_frame {named : ImageId → List (String × Bytes)} (filled : s.fill = named) {id₀ : ImageId} {image : Bytes}
    (built : Root.build version (named id₀) = .ok image) (good : ∀ id, Root.Streams (named id))
    {data : ImageId → Bytes} (found : ∀ id, (named id).lookup s.name = some (data id)) :
    ∃ frame : IdFrame, ∀ id, Root.build version (named id) = .ok (frame.fill id) ∧
      frame.InStream (frame.fill id) s.name s.front.length (padTo 4 (data id)) := by
  subst filled
  have builds := build_fill built
  exact ⟨s.frame version, fun id => ⟨builds id, inStream_frame (builds id) (good id) (found id)⟩⟩

end IdStreams

/-- The streams of a module image with a debug record, in which the identifier has its place. -/
def ModuleStreams.identified (s : ModuleStreams) (file : SymbolFile) : IdStreams :=
  ⟨s.named none, StreamName.codeView, u32Bytes CodeViewRecord.signature, u32Bytes file.age ++ utf8Bytes file.path ++ [0], []⟩

theorem ModuleStreams.fill_identified (s : ModuleStreams) (file : SymbolFile) :
    (s.identified file).fill = fun id => s.named (some ⟨id, file.age, file.path⟩) := by
  funext id
  simp only [identified, IdStreams.fill, named, CodeViewRecord.build, Option.toList_none, Option.toList_some, List.map_nil,
    List.map_cons, List.append_assoc, List.append_nil]

/-- The streams of a symbol image, in which the identifier has its place. -/
def SymbolStreams.identified (s : SymbolStreams) : IdStreams :=
  ⟨[], StreamName.pdb, [], u32Bytes s.entryPoint.value ++ u64Bytes (PdbStream.mask ⟨.zero, s.entryPoint, s.rows⟩) ++
    s.rows.flatMap fun row => u32Bytes row.2,
    [(StreamName.tables, s.tables), (StreamName.guids, s.guids), (StreamName.blobs, s.blobs)]⟩

theorem SymbolStreams.fill_identified (s : SymbolStreams) : s.identified.fill = s.named := by
  funext id
  simp only [identified, IdStreams.fill, named, PdbStream.build, List.nil_append, List.append_assoc]
  rfl

theorem ModuleStreams.exists_frame {s : ModuleStreams} {version : String} {file : SymbolFile} {id₀ : ImageId} {image : Bytes}
    (built : s.image version (some ⟨id₀, file.age, file.path⟩) = .ok image) :
    ∃ frame : IdFrame, ∀ id, s.image version (some ⟨id, file.age, file.path⟩) = .ok (frame.fill id) ∧
      ∃ stream, frame.InStream (frame.fill id) StreamName.codeView 4 stream ∧
        CodeViewRecord.parse stream = .ok ⟨id, file.age, beforeNul file.path⟩ := by
  obtain ⟨frame, frames⟩ := IdStreams.exists_frame (s.fill_identified file) built (fun id => s.streams_named _)
    fun id => s.lookup_codeView (some ⟨id, file.age, file.path⟩)
  exact ⟨frame, fun id => ⟨(frames id).1, _, (frames id).2, CodeViewRecord.parse_build_beforeNul ⟨id, file.age, file.path⟩ _⟩⟩

theorem SymbolStreams.exists_frame {m : Module} {d : SymbolDraft} {b : TableStreamBuilder} {id₀ : ImageId} {image : Bytes}
    (built : (SymbolStreams.ofDraft m d b).image id₀ = .ok image) :
    ∃ frame : IdFrame, ∀ id, (SymbolStreams.ofDraft m d b).image id = .ok (frame.fill id) ∧
      ∃ stream pdb, frame.InStream (frame.fill id) StreamName.pdb 0 stream ∧
        PdbStream.parse stream = .ok pdb ∧ pdb.id = id := by
  let s := SymbolStreams.ofDraft m d b
  have named : Root.build version (s.named id₀) = .ok image := built
  obtain ⟨frame, frames⟩ := IdStreams.exists_frame s.fill_identified named s.streams_named s.lookup_pdb
  exact ⟨frame, fun id => ⟨(frames id).1, _, _, (frames id).2, PdbStream.parse_build _ (ordered_rowCounts m id) _, rfl⟩⟩

/-- Both images of a module with a symbol file hold one identifier, the one behind the signature of its debug record, the
    other at the start of its symbols. It is the digest of the images with zeros in these places, and no other byte of an
    image depends on it. -/
theorem Module.emit_identifies {digest : Bytes → ImageId} {m : Module} {file : SymbolFile} {e : EmittedModule}
    (linked : m.symbols? = some file) (emitted : m.emit digest = .ok e) :
    ∃ (code symbols : IdFrame) (id : ImageId),
      e = ⟨code.fill id, symbols.fill id⟩ ∧ id = digest (code.fill .zero ++ symbols.fill .zero) ∧
      (∃ stream, code.InStream e.code StreamName.codeView 4 stream ∧
        CodeViewRecord.parse stream = .ok ⟨id, file.age, beforeNul file.path⟩) ∧
      (∃ stream pdb, symbols.InStream e.symbols StreamName.pdb 0 stream ∧ PdbStream.parse stream = .ok pdb ∧ pdb.id = id) ∧
      ∀ other : Bytes → ImageId, m.emit other =
        .ok ⟨code.fill (other (code.fill .zero ++ symbols.fill .zero)),
          symbols.fill (other (code.fill .zero ++ symbols.fill .zero))⟩ := by
  unfold Module.emit at emitted ⊢
  simp only [linked] at emitted ⊢
  obtain ⟨streams, made, emitted⟩ := Outcome.bind_eq_ok.mp emitted
  obtain ⟨symbolStreams, madeSymbols, emitted⟩ := Outcome.bind_eq_ok.mp emitted
  obtain ⟨blank, blankBuilt, emitted⟩ := Outcome.bind_eq_ok.mp emitted
  obtain ⟨-, -, draft, builder, -, rfl⟩ := SymbolStreams.ofModule_eq_ok madeSymbols
  obtain ⟨blankCode, blankSymbols⟩ := images_eq_ok.mp blankBuilt
  obtain ⟨code, codes⟩ := ModuleStreams.exists_frame blankCode
  obtain ⟨symbols, symbolses⟩ := SymbolStreams.exists_frame blankSymbols
  have images (id : ImageId) : m.images file streams (.ofDraft m draft builder) id = .ok ⟨code.fill id, symbols.fill id⟩ :=
    images_eq_ok.mpr ⟨(codes id).1, (symbolses id).1⟩
  rw [images] at blankBuilt
  cases blankBuilt
  rw [images] at emitted
  cases emitted
  refine ⟨code, symbols, _, rfl, rfl, (codes _).2, (symbolses _).2, fun other => ?_⟩
  rw [made, Outcome.ok_bind, madeSymbols, Outcome.ok_bind, images, Outcome.ok_bind, images]

/-- A digest of one byte, the sum of the bytes. -/
def Sample.checksum (bytes : Bytes) : ImageId := .ofBytes [bytes.sum]

theorem Module.emit_identifies_sample : ∃ (code symbols : IdFrame) (id : ImageId),
    Sample.linked.emit Sample.checksum = .ok ⟨code.fill id, symbols.fill id⟩ ∧
      id = Sample.checksum (code.fill .zero ++ symbols.fill .zero) ∧
      Sample.linked.emit (fun _ => .zero) = .ok ⟨code.fill .zero, symbols.fill .zero⟩ := by
  have succeeds : (Sample.linked.emit Sample.checksum).toOption.any (fun _ => true) = true := by decide +kernel
  obtain ⟨e, emitted, -⟩ := Outcome.exists_of_any succeeds
  obtain ⟨code, symbols, id, rfl, same, -, -, others⟩ := emit_identifies rfl emitted
  exact ⟨code, symbols, id, emitted, same, others fun _ => .zero⟩

end CilWeaver
