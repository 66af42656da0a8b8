import CilWeaver.Proofs.Lockstep
import CilWeaver.Proofs.Roots

/-!
Where the streams of an image lie: in order, at multiples of four, from the end of the root to the end of the image.
Main statement: streams with different known names that fit an image can be read from it again. Images of streams that
differ in some places only differ in the places where the streams do.
-/

namespace CilWeaver.Root

theorem rootSize_mod (version : String) (streams : List (String × Bytes)) : rootSize version streams % 4 = 0 := by
  have headers : (streams.map fun s => StreamHeader.diskSize s.1).sum % 4 = 0 := by
    induction streams with
    | nil => rfl
    | cons stream streams ih =>
      rw [List.map_cons, List.sum_cons, StreamHeader.diskSize]
      omega
  rw [rootSize, versionFieldSize]
  omega

theorem aligned_headersFrom {offset : Nat} {streams : List (String × Bytes)} (aligned : offset % 4 = 0) :
    ∀ h ∈ headersFrom offset streams, h.offset % 4 = 0 ∧ h.size % 4 = 0 := by
  induction streams generalizing offset with
  | nil => exact fun _ member => absurd member List.not_mem_nil
  | cons stream streams ih =>
    obtain ⟨name, data⟩ := stream
    have size := length_padTo_mod data
    rw [headersFrom, List.forall_mem_cons]
    exact ⟨⟨aligned, size⟩, ih (by omega)⟩

theorem headersFrom_append (offset : Nat) (front back : List (String × Bytes)) :
    headersFrom offset (front ++ back) = headersFrom offset front ++ headersFrom (offset + (contents front).length) back := by
  induction front generalizing offset with
  | nil => rfl
  | cons stream front ih =>
    obtain ⟨name, data⟩ := stream
    rw [List.cons_append, headersFrom, headersFrom, ih, contents_cons, List.length_append, Nat.add_assoc]
    rfl

theorem offset_le_of_mem {offset : Nat} {streams : List (String × Bytes)} {h : StreamHeader}
    (member : h ∈ headersFrom offset streams) : offset ≤ h.offset := by
  induction streams generalizing offset with
  | nil => exact absurd member List.not_mem_nil
  | cons stream streams ih =>
    obtain ⟨name, data⟩ := stream
    rcases List.mem_cons.mp member with rfl | member
    · exact Nat.le_refl offset
    · exact (Nat.le_add_right offset _).trans (ih member)

theorem pairwise_headersFrom (offset : Nat) (streams : List (String × Bytes)) :
    (headersFrom offset streams).Pairwise fun h later => h.offset + h.size ≤ later.offset := by
  induction streams generalizing offset with
  | nil => exact .nil
  | cons stream streams ih =>
    obtain ⟨name, data⟩ := stream
    rw [headersFrom, List.pairwise_cons]
    exact ⟨fun later member => offset_le_of_mem member, ih _⟩

/-- Each position behind `offset` is in a stream, up to the end of the last one. -/
theorem covered_headersFrom (offset : Nat) (streams : List (String × Bytes)) (position : Nat) :
    offset ≤ position ∧ position < offset + (contents streams).length ↔
      ∃ h ∈ headersFrom offset streams, h.offset ≤ position ∧ position < h.offset + h.size := by
  induction streams generalizing offset with
  | nil =>
    simp only [headersFrom, List.not_mem_nil, false_and, exists_false, iff_false, contents, List.flatMap_nil,
      List.length_nil]
    omega
  | cons stream streams ih =>
    obtain ⟨name, data⟩ := stream
    have others := ih (offset + (padTo 4 data).length)
    simp only [headersFrom, List.mem_cons, exists_eq_or_imp, ← others, contents_cons, List.length_append]
    omega

theorem few_of_known {streams : List (String × Bytes)} (known : ∀ s ∈ streams, s.1 ∈ StreamName.known)
    (distinct : (streams.map (·.1)).Nodup) : streams.length < 2 ^ 16 := by
  have names : streams.map (·.1) ⊆ StreamName.known := by
    intro name member
    obtain ⟨s, hs, rfl⟩ := List.mem_map.mp member
    exact known s hs
  have bound := (distinct.subperm names).length_le
  have count : StreamName.known.length < 2 ^ 16 := by decide
  rw [List.length_map] at bound
  omega

variable {version : String} {streams : List (String × Bytes)} {data : Bytes}

theorem stream?_of_mem (h : build version streams = .ok data) (distinct : (streams.map (·.1)).Nodup) {name : String}
    {bytes : Bytes} (member : (name, bytes) ∈ streams) :
    (ofStreams version streams).stream? data name = some (padTo 4 bytes) := by
  have found : streams.lookup name = some bytes := by
    obtain ⟨front, back, rfl⟩ := List.append_of_mem member
    rw [List.map_append, List.map_cons, List.nodup_append] at distinct
    refine List.lookup_eq_some_iff.mpr ⟨front, back, rfl, fun other earlier => ?_⟩
    rw [bne_iff_ne]
    exact (distinct.2.2 other.1 (List.mem_map_of_mem earlier) name List.mem_cons_self).symm
  rw [stream?_ofStreams h, found, Option.map_some]

theorem stream?_of_notMem (h : build version streams = .ok data) {name : String} (absent : name ∉ streams.map (·.1)) :
    (ofStreams version streams).stream? data name = none := by
  have missing : streams.lookup name = none := by
    refine List.lookup_eq_none_iff.mpr fun other member => ?_
    rw [bne_iff_ne]
    rintro rfl
    exact absent (List.mem_map_of_mem member)
  rw [stream?_ofStreams h, missing, Option.map_none]

/-- Streams with different known names are read from the image that they are built into. The root ends where the
    first one starts, and each position behind the root is in exactly one of them. -/
theorem read_undoes_build (short : version.utf8ByteSize ≤ 251) (noNul : '\x00' ∉ version.toList) (nonempty : streams ≠ [])
    (known : ∀ s ∈ streams, s.1 ∈ StreamName.known) (distinct : (streams.map (·.1)).Nodup)
    (fits : rootSize version streams + (contents streams).length < 2 ^ 32) :
    ∃ data root after, build version streams = .ok data ∧
      (Root.read data.length).run (.start data) = .ok root after ∧ Root.parse data = .ok root ∧
      root.version = version ∧ root.streams.map (·.name) = streams.map (·.1) ∧
      (∀ name bytes, (name, bytes) ∈ streams → ∃ fill, root.stream? data name = some (bytes ++ zeros fill) ∧
        fill < 4 ∧ (bytes.length + fill) % 4 = 0) ∧
      (∀ name, name ∉ streams.map (·.1) → root.stream? data name = none) ∧
      (∀ h ∈ root.streams, h.offset % 4 = 0 ∧ h.size % 4 = 0) ∧
      (root.streams.Pairwise fun h later => h.offset + h.size ≤ later.offset) ∧
      ∀ position, after.position ≤ position ∧ position < data.length ↔
        ∃ h ∈ root.streams, h.offset ≤ position ∧ position < h.offset + h.size := by
  have field : versionFieldSize version ≤ maxVersionSize := by
    rw [versionFieldSize, maxVersionSize]
    omega
  have good : Streams streams := ⟨known, distinct, nonempty, few_of_known known distinct⟩
  obtain ⟨data, built⟩ := exists_build field fits
  have length := length_build built
  have read := read_build_beforeNul built good (by omega)
  rw [beforeNul_eq noNul] at read
  refine ⟨data, ofStreams version streams, ⟨rootSize version streams, contents streams⟩, built, read,
    parse_build built noNul good (by omega), rfl, names_headersFrom _ streams, fun name bytes member => ?_,
    fun name absent => stream?_of_notMem built absent, aligned_headersFrom (rootSize_mod version streams),
    pairwise_headersFrom _ streams, fun position => ?_⟩
  · refine ⟨padding 4 bytes.length, stream?_of_mem built distinct member, ?_, padding_four bytes.length⟩
    rw [padding]
    omega
  · rw [length]
    exact covered_headersFrom _ streams position

/-- The longest version, and streams of which one is empty and one is filled up. -/
theorem read_undoes_build_sample : ∃ data root after,
    build (.ofList (List.replicate 251 'v')) [(StreamName.guids, []), (StreamName.blobs, [0, 1, 7, 0, 0])] = .ok data ∧
      (Root.read data.length).run (.start data) = .ok root after ∧
      root.stream? data StreamName.blobs = some [0, 1, 7, 0, 0, 0, 0, 0] ∧ root.stream? data StreamName.il = none := by
  have noNul : '\x00' ∉ (String.ofList (List.replicate 251 'v')).toList := by
    rw [String.toList_ofList]
    exact fun member => absurd (List.eq_of_mem_replicate member) (by decide)
  obtain ⟨data, root, after, built, read, -, -, -, found, absent, -⟩ :=
    @read_undoes_build (.ofList (List.replicate 251 'v'))
      [(StreamName.guids, []), (StreamName.blobs, [0, 1, 7, 0, 0])] (by decide +kernel) noNul
      (by decide) (by decide) (by decide) (by decide +kernel)
  obtain ⟨fill, blobs, few, multiple⟩ := found StreamName.blobs [0, 1, 7, 0, 0] (by decide)
  have three : fill = 3 := by
    change (5 + fill) % 4 = 0 at multiple
    omega
  refine ⟨data, root, after, built, read, ?_, absent StreamName.il (by decide)⟩
  rw [blobs, three]
  rfl

end CilWeaver.Root

/-! Bytes that differ in some places only -/

namespace CilWeaver

/-- Bytes of one length that are the same outside of some places. -/
structure DifferAt (places : Nat → Prop) (xs ys : Bytes) : Prop where
  length : ys.length = xs.length
  only : ∀ i, xs[i]? ≠ ys[i]? → places i

namespace DifferAt

variable {places others : Nat → Prop} {xs ys xs' ys' : Bytes}

theorem refl (places : Nat → Prop) (xs : Bytes) : DifferAt places xs xs := ⟨rfl, fun _ differ => absurd rfl differ⟩

theorem mono (differ : DifferAt places xs ys) (wider : ∀ i, places i → others i) : DifferAt others xs ys :=
  ⟨differ.length, fun i at_i => wider i (differ.only i at_i)⟩

theorem of_length (same : ys.length = xs.length) : DifferAt (· < xs.length) xs ys := by
  refine ⟨same, fun i differ => ?_⟩
  by_contra outside
  rw [List.getElem?_eq_none (by omega), List.getElem?_eq_none (by omega)] at differ
  exact differ rfl

theorem append (front : DifferAt places xs ys) (back : DifferAt others xs' ys') :
    DifferAt (fun i => places i ∨ ∃ j, others j ∧ i = xs.length + j) (xs ++ xs') (ys ++ ys') := by
  refine ⟨by rw [List.length_append, List.length_append, front.length, back.length], fun i differ => ?_⟩
  rw [List.getElem?_append, List.getElem?_append, front.length] at differ
  by_cases inside : i < xs.length
  · rw [if_pos inside, if_pos inside] at differ
    exact .inl (front.only i differ)
  · rw [if_neg inside, if_neg inside] at differ
    exact .inr ⟨i - xs.length, back.only _ differ, by omega⟩

/-- The same bytes behind. -/
theorem append_same (front : DifferAt places xs ys) (back : Bytes) : DifferAt places (xs ++ back) (ys ++ back) := by
  refine (front.append (refl (fun _ => False) back)).mono fun i among => ?_
  rcases among with own | ⟨j, none, -⟩
  · exact own
  · exact none.elim

/-- The same bytes in front. -/
theorem same_append (front : Bytes) (back : DifferAt others xs' ys') :
    DifferAt (fun i => ∃ j, others j ∧ i = front.length + j) (front ++ xs') (front ++ ys') := by
  refine ((refl (fun _ => False) front).append back).mono fun i among => ?_
  rcases among with none | own
  · exact none.elim
  · exact own

theorem padTo (differ : DifferAt places xs ys) : DifferAt places (padTo 4 xs) (padTo 4 ys) := by
  unfold CilWeaver.padTo
  rw [differ.length]
  exact differ.append_same _

end DifferAt

namespace Root

/-- Streams of the same names, which differ in some places of each name. -/
def Alike (places : String → Nat → Prop) (streams streams' : List (String × Bytes)) : Prop :=
  List.Forall₂ (fun s s' => s'.1 = s.1 ∧ DifferAt (places s.1) s.2 s'.2) streams streams'

/-- The places of streams in an image with the given headers. -/
def InStreams (places : String → Nat → Prop) (headers : List StreamHeader) (i : Nat) : Prop :=
  ∃ h ∈ headers, ∃ j, places h.name j ∧ i = h.offset + j

variable {places : String → Nat → Prop} {streams streams' : List (String × Bytes)}

theorem Alike.directory (alike : Alike places streams streams') (offset : Nat) :
    directory offset streams' = directory offset streams := by
  induction alike generalizing offset with
  | nil => rfl
  | @cons s s' streams streams' first others ih =>
    obtain ⟨name, data⟩ := s
    obtain ⟨name', data'⟩ := s'
    obtain ⟨rfl, differ⟩ := first
    unfold Root.directory
    rw [differ.length]
    simp only [ih]

theorem Alike.headersFrom_eq (alike : Alike places streams streams') (offset : Nat) :
    headersFrom offset streams' = headersFrom offset streams := by
  induction alike generalizing offset with
  | nil => rfl
  | cons first others ih =>
    obtain ⟨name, differ⟩ := first
    rw [headersFrom, headersFrom, name, differ.padTo.length, ih]

/-- Places in the contents are counted from the offset of the first stream. -/
theorem Alike.contents (alike : Alike places streams streams') (offset : Nat) :
    DifferAt (fun i => InStreams places (headersFrom offset streams) (offset + i)) (contents streams) (contents streams') := by
  induction alike generalizing offset with
  | nil => exact .refl _ _
  | @cons s s' streams streams' first others ih =>
    obtain ⟨name, data⟩ := s
    obtain ⟨name', data'⟩ := s'
    obtain ⟨rfl, differ⟩ := first
    rw [contents_cons, contents_cons]
    refine (differ.padTo.append (ih (offset + (padTo 4 data).length))).mono fun i among => ?_
    rw [headersFrom]
    rcases among with own | ⟨j, ⟨h, member, k, place, same⟩, rfl⟩
    · exact ⟨_, List.mem_cons_self, i, own, rfl⟩
    · refine ⟨h, List.mem_cons_of_mem _ member, k, place, ?_⟩
      dsimp only
      omega

theorem Alike.names (alike : Alike places streams streams') : streams'.map (·.1) = streams.map (·.1) := by
  induction alike with
  | nil => rfl
  | cons first others ih => rw [List.map_cons, List.map_cons, ih, first.1]

/-- An image is its root and the contents of its streams. -/
theorem build_eq_directory (version : String) (streams : List (String × Bytes)) :
    build version streams = (if maxVersionSize < versionFieldSize version then .error (.malformed (.versionTooLong version))
      else do
        let headers ← directory (rootSize version streams) streams
        return (start version streams.length ++ headers.flatMap StreamHeader.bytes) ++ contents streams) := by
  have aligned : (start version streams.length).length % 4 = 0 := by
    rw [length_start, versionFieldSize]
    omega
  unfold build
  by_cases long : maxVersionSize < versionFieldSize version
  · rw [if_pos long, if_pos long]
    rfl
  · rw [if_neg long, if_neg long]
    refine congrArg (Root.directory (rootSize version streams) streams >>= ·) (funext fun headers => ?_)
    exact congrArg (fun front => Except.ok (front ++ contents streams)) (StreamHeader.foldl_appendTo aligned headers)

theorem Alike.rootSize_eq (alike : Alike places streams streams') (version : String) :
    rootSize version streams' = rootSize version streams := by
  have sizes := congrArg (fun names => (names.map StreamHeader.diskSize).sum) alike.names
  simp only [List.map_map] at sizes
  exact congrArg (20 + versionFieldSize version + ·) sizes

theorem Alike.build (alike : Alike places streams streams') (version : String) :
    Outcome.Alike (DifferAt (InStreams places (headersOf version streams))) (build version streams) (build version streams') := by
  rw [build_eq_directory, build_eq_directory, alike.rootSize_eq, alike.directory, ← alike.length_eq]
  by_cases long : maxVersionSize < versionFieldSize version
  · rw [if_pos long, if_pos long]
    exact .error _
  · rw [if_neg long, if_neg long]
    cases made : Root.directory (rootSize version streams) streams with
    | error e => exact .error e
    | ok headers =>
      obtain ⟨rfl, -⟩ := directory_eq made
      have front := length_front version streams
      unfold headersOf at front
      refine .ok ((DifferAt.same_append _ (alike.contents (rootSize version streams))).mono fun i among => ?_)
      obtain ⟨j, place, rfl⟩ := among
      rw [front]
      exact place

end Root

end CilWeaver
