import CilWeaver.Image.Root
import CilWeaver.Proofs.Failures
import CilWeaver.Proofs.Heaps

/-!
An image is read back as the streams it was built from, each filled up to a multiple of four.
-/

namespace CilWeaver

open Reader Step

namespace StreamHeader

/-- A header in an image, filled up to a multiple of four. -/
def bytes (h : StreamHeader) : Bytes :=
  padTo 4 (leBytes 4 h.offset ++ leBytes 4 h.size ++ utf8Bytes h.name ++ [0])

theorem foldl_appendTo {start : Bytes} (aligned : start.length % 4 = 0) (headers : List StreamHeader) :
    headers.foldl appendTo start = start ++ headers.flatMap bytes := by
  induction headers generalizing start with
  | nil => simp
  | cons h headers ih =>
    have one : appendTo start h = start ++ h.bytes := by
      unfold appendTo bytes
      rw [List.append_assoc, List.append_assoc, List.append_assoc, padTo_of_aligned aligned,
        ← List.append_assoc, ← List.append_assoc]
    have next : (start ++ h.bytes).length % 4 = 0 := by
      have := length_padTo_mod (leBytes 4 h.offset ++ leBytes 4 h.size ++ utf8Bytes h.name ++ [0])
      rw [List.length_append, bytes]
      omega
    rw [List.foldl_cons, one, ih next, List.flatMap_cons, List.append_assoc]

theorem length_bytes (h : StreamHeader) : h.bytes.length = diskSize h.name := by
  have name : (utf8Bytes h.name).length = h.name.utf8ByteSize := by
    rw [utf8Bytes, Utf8.length_encode, String.ofList_toList]
  rw [bytes, length_padTo, padding, diskSize]
  simp only [List.length_append, length_leBytes, List.length_singleton, name]
  omega

theorem encodeChar_ascii {c : Char} (h : c.toNat < 128) :
    String.utf8EncodeChar c = [UInt8.ofNat c.toNat] := by
  have value : c.val.toNat = c.toNat := rfl
  unfold String.utf8EncodeChar
  simp only [value]
  rw [if_pos (by omega)]

theorem utf8Size_ascii {c : Char} (h : c.toNat < 128) : c.utf8Size = 1 := by
  rw [← String.length_utf8EncodeChar, encodeChar_ascii h]
  rfl

/-- A name of ASCII characters is read back character by character. -/
theorem readNameFrom_ascii {name : List Char} (ascii : ∀ c ∈ name, 0 < c.toNat ∧ c.toNat < 128)
    (start size : Nat) (short : size + name.length ≤ StreamName.maxSize) (done : List Char)
    (fuel : Nat) (enough : name.length < fuel) (position : Nat) :
    Reads (readNameFrom start size done fuel) position (Utf8.encode name ++ [0])
      (String.ofList (done.reverse ++ name)) := by
  induction name generalizing size done fuel position with
  | nil =>
    obtain ⟨fuel, rfl⟩ := Nat.exists_eq_succ_of_ne_zero (Nat.pos_iff_ne_zero.mp enough)
    rw [List.append_nil]
    intro rest
    rfl
  | cons c name ih =>
    obtain ⟨positive, small⟩ := ascii c (by simp)
    obtain ⟨fuel, rfl⟩ := Nat.exists_eq_succ_of_ne_zero (Nat.ne_of_gt (Nat.zero_lt_of_lt enough))
    simp only [List.length_cons] at short enough
    have byte : (UInt8.ofNat c.toNat).toNat = c.toNat := by
      rw [UInt8.toNat_ofNat', Nat.mod_eq_of_lt (by omega)]
    have nonzero : (UInt8.ofNat c.toNat == 0) = false := by
      rw [beq_eq_false_iff_ne]
      intro zero
      have := congrArg UInt8.toNat zero
      rw [byte] at this
      exact Nat.ne_of_gt positive this
    have room : (size == StreamName.maxSize) = false := by
      rw [beq_eq_false_iff_ne]
      omega
    have same : Char.ofNat (UInt8.ofNat c.toNat).toNat = c := by
      rw [byte, Char.ofNat_toNat]
    rw [Utf8.encode, List.flatMap_cons, encodeChar_ascii small, List.append_assoc, readNameFrom]
    refine reads_byte_bind ?_
    simp only [nonzero, room, Bool.false_eq_true, ↓reduceIte, same, utf8Size_ascii small]
    have others := ih (fun d member => ascii d (by simp [member])) (size + 1) (by omega) (c :: done)
      fuel (by omega) (position + 1)
    rw [List.reverse_cons, List.append_assoc] at others
    exact others

theorem known_ascii {name : String} (known : name ∈ StreamName.known) :
    (∀ c ∈ name.toList, 0 < c.toNat ∧ c.toNat < 128) ∧ name.toList.length ≤ StreamName.maxSize := by
  have all : StreamName.known.all (fun name => name.toList.all (fun c => decide (0 < c.toNat ∧ c.toNat < 128)) &&
      decide (name.toList.length ≤ StreamName.maxSize)) = true := by decide
  obtain ⟨characters, short⟩ := Bool.and_eq_true_iff.mp (List.all_eq_true.mp all name known)
  exact ⟨fun c member => of_decide_eq_true (List.all_eq_true.mp characters c member), of_decide_eq_true short⟩

theorem reads_name {name : String} (known : name ∈ StreamName.known) (position : Nat) :
    Reads readName position (utf8Bytes name ++ [0]) name := by
  obtain ⟨ascii, short⟩ := known_ascii known
  intro rest
  have length : name.toList.length ≤ (utf8Bytes name).length := Utf8.length_le_encode name.toList
  have read := readNameFrom_ascii ascii position 0 (by omega) []
    ((utf8Bytes name ++ [0] ++ rest).length + 1) (by simp only [List.length_append]; omega) position rest
  rw [List.reverse_nil, List.nil_append, String.ofList_toList] at read
  exact read

theorem reads_header {h : StreamHeader} (known : h.name ∈ StreamName.known) (offset : h.offset < 2 ^ 32)
    (size : h.size < 2 ^ 32) {position : Nat} (aligned : position % 4 = 0) :
    Reads StreamHeader.read position h.bytes h := by
  have contains : (!StreamName.known.contains h.name) = false := by
    rw [Bool.not_eq_false', List.contains_iff_mem]
    exact known
  unfold StreamHeader.read bytes
  rw [padTo]
  simp only [List.append_assoc]
  refine (reads_u32_ofNat offset position).bind ?_
  refine (reads_u32_ofNat size _).bind ?_
  rw [← List.append_assoc (utf8Bytes h.name)]
  refine (reads_name known _).bind ?_
  have filled : (zeros (padding 4 (leBytes 4 h.offset ++ (leBytes 4 h.size ++ (utf8Bytes h.name ++ [0]))).length)).length =
      padding 4 (position + (leBytes 4 h.offset).length + (leBytes 4 h.size).length
        + (utf8Bytes h.name ++ [0]).length) := by
    rw [Nat.add_assoc, Nat.add_assoc, padding_of_aligned aligned, zeros, List.length_replicate,
      List.length_append, List.length_append]
  rw [← List.append_nil (zeros _)]
  refine (reads_align _ filled).bind ?_
  simp only [contains, Bool.false_eq_true, ↓reduceIte, UInt32.toNat_ofNat', Nat.mod_eq_of_lt offset,
    Nat.mod_eq_of_lt size]
  exact reads_pure _ h

end StreamHeader

namespace Root

/-- The headers of streams that lie one behind the other from `offset` on. -/
def headersFrom : (offset : Nat) → List (String × Bytes) → List StreamHeader
  | _, [] => []
  | offset, (name, data) :: streams =>
    ⟨name, offset, (padTo 4 data).length⟩ :: headersFrom (offset + (padTo 4 data).length) streams

theorem padTo_length_eq (data : Bytes) : (padTo 4 data).length = (data.length + 3) / 4 * 4 := by
  rw [length_padTo, padding]
  omega

theorem directory_eq {offset : Nat} {streams : List (String × Bytes)} {headers : List StreamHeader}
    (h : directory offset streams = .ok headers) :
    headers = headersFrom offset streams ∧
      ∀ header ∈ headers, header.offset < 2 ^ 32 ∧ header.size < 2 ^ 32 := by
  induction streams generalizing offset headers with
  | nil =>
    cases h
    exact ⟨rfl, fun _ member => by cases member⟩
  | cons stream streams ih =>
    obtain ⟨name, data⟩ := stream
    rw [directory] at h
    split at h
    · cases h
    · split at h
      · cases h
      · rename_i offsetBound sizeBound
        obtain ⟨others, hothers, last⟩ := Outcome.bind_eq_ok.mp h
        obtain ⟨rfl, bounds⟩ := ih hothers
        rw [← Outcome.pure_eq_ok.mp last]
        refine ⟨?_, ?_⟩
        · rw [headersFrom, padTo_length_eq]
        · intro header member
          rcases List.mem_cons.mp member with rfl | member
          · exact ⟨Nat.lt_of_not_le offsetBound, Nat.lt_of_not_le sizeBound⟩
          · exact bounds header member

theorem names_headersFrom (offset : Nat) (streams : List (String × Bytes)) :
    (headersFrom offset streams).map (·.name) = streams.map (·.1) := by
  induction streams generalizing offset with
  | nil => rfl
  | cons stream streams ih =>
    obtain ⟨name, data⟩ := stream
    rw [headersFrom, List.map_cons, List.map_cons, ih]

/-- The streams of an image without the root. -/
def contents (streams : List (String × Bytes)) : Bytes := streams.flatMap fun s => padTo 4 s.2

theorem contents_cons (name : String) (data : Bytes) (streams : List (String × Bytes)) :
    contents ((name, data) :: streams) = padTo 4 data ++ contents streams := rfl

/-- No header reaches beyond the contents. -/
theorem end_le_of_mem {offset : Nat} {streams : List (String × Bytes)} {header : StreamHeader}
    (member : header ∈ headersFrom offset streams) :
    header.offset + header.size ≤ offset + (contents streams).length := by
  induction streams generalizing offset with
  | nil => cases member
  | cons stream streams ih =>
    obtain ⟨name, data⟩ := stream
    rw [contents_cons, List.length_append]
    rcases List.mem_cons.mp member with rfl | member
    · simp only
      omega
    · have := ih member
      omega

/-- The last header ends with the contents. -/
theorem exists_end_eq {streams : List (String × Bytes)} (nonempty : streams ≠ []) (offset : Nat) :
    ∃ header ∈ headersFrom offset streams,
      header.offset + header.size = offset + (contents streams).length := by
  induction streams generalizing offset with
  | nil => exact absurd rfl nonempty
  | cons stream streams ih =>
    obtain ⟨name, data⟩ := stream
    rw [contents_cons, List.length_append]
    by_cases last : streams = []
    · subst last
      exact ⟨_, List.mem_cons_self .., by simp [contents]⟩
    · obtain ⟨header, member, reaches⟩ := ih last (offset + (padTo 4 data).length)
      exact ⟨header, List.mem_cons_of_mem _ member, by omega⟩

/-- Each name finds the bytes of its stream. -/
theorem find_headersFrom (front : Bytes) (streams : List (String × Bytes)) (name : String) :
    ((headersFrom front.length streams).find? (·.name == name)).map
        (fun h => ((front ++ contents streams).drop h.offset).take h.size) =
      (streams.lookup name).map (padTo 4) := by
  induction streams generalizing front with
  | nil => rfl
  | cons stream streams ih =>
    obtain ⟨first, data⟩ := stream
    rw [headersFrom, List.find?_cons, List.lookup_cons, contents_cons, BEq.comm]
    cases same : name == first with
    | true =>
      simp only [Option.map_some, List.drop_left, List.take_left]
    | false =>
      have others := ih (front ++ padTo 4 data)
      rw [List.length_append, List.append_assoc] at others
      exact others

/-- What the reader demands of a header: it lies in the image. -/
def Inside (imageSize : Nat) (header : StreamHeader) : Prop :=
  header.offset + header.size < 2 ^ 32 ∧ header.offset + header.size ≤ imageSize

theorem inside_iff {imageSize : Nat} {header : StreamHeader} :
    (decide (2 ^ 32 ≤ header.offset + header.size) || decide (imageSize < header.offset + header.size)) =
      false ↔ Inside imageSize header := by
  rw [Bool.or_eq_false_iff, decide_eq_false_iff_not, decide_eq_false_iff_not, Nat.not_le, Nat.not_lt]
  rfl

theorem reads_headers {imageSize : Nat} {headers done : List StreamHeader}
    (known : ∀ h ∈ headers, h.name ∈ StreamName.known) (inside : ∀ h ∈ headers, Inside imageSize h)
    (distinct : (headers.map (·.name)).Nodup)
    (new : ∀ h ∈ headers, ∀ old ∈ done, old.name ≠ h.name) {position : Nat}
    (aligned : position % 4 = 0) :
    Reads (readHeaders imageSize done headers.length) position (headers.flatMap StreamHeader.bytes)
      (done.reverse ++ headers) := by
  induction headers generalizing done position with
  | nil =>
    rw [List.append_nil]
    exact reads_pure position done.reverse
  | cons h headers ih =>
    obtain ⟨offsetBound, sizeBound⟩ := inside h (by simp)
    have read := StreamHeader.reads_header (known h (by simp)) (by omega) (by omega) aligned
    have good := inside_iff.mpr (inside h (by simp))
    have fresh : (done.any fun old => old.name == h.name) = false := by
      rw [List.any_eq_false]
      intro old member
      rw [beq_iff_eq]
      exact new h (by simp) old member
    obtain ⟨notLater, distinct⟩ := List.nodup_cons.mp distinct
    have others : Reads (readHeaders imageSize (h :: done) headers.length)
        (position + h.bytes.length) (headers.flatMap StreamHeader.bytes)
        ((h :: done).reverse ++ headers) := by
      apply ih (fun x member => known x (by simp [member])) (fun x member => inside x (by simp [member]))
        distinct
      · intro x member old hold
        rcases List.mem_cons.mp hold with rfl | hold
        · intro same
          exact notLater (List.mem_map.mpr ⟨x, member, same.symm⟩)
        · exact new x (by simp [member]) old hold
      · rw [StreamHeader.length_bytes, StreamHeader.diskSize]
        omega
    rw [List.reverse_cons, List.append_assoc] at others
    rw [List.flatMap_cons, List.length_cons, readHeaders]
    refine read.bind ?_
    simp only [good, fresh, Bool.false_eq_true, ↓reduceIte]
    exact others

/-- Headers that are read lie in the image. -/
theorem inside_of_readHeaders {imageSize : Nat} {headers done : List StreamHeader}
    (known : ∀ h ∈ headers, h.name ∈ StreamName.known)
    (bounds : ∀ h ∈ headers, h.offset < 2 ^ 32 ∧ h.size < 2 ^ 32) {position : Nat}
    (aligned : position % 4 = 0) {rest : Bytes} {answer : List StreamHeader} {after : Cursor}
    (h : readHeaders imageSize done headers.length
      ⟨position, headers.flatMap StreamHeader.bytes ++ rest⟩ = .ok answer after) :
    ∀ header ∈ headers, Inside imageSize header := by
  induction headers generalizing done position with
  | nil => exact fun _ member => by cases member
  | cons header headers ih =>
    obtain ⟨offset, size⟩ := bounds header (by simp)
    have read := StreamHeader.reads_header (known header (by simp)) offset size aligned
    rw [List.flatMap_cons, List.append_assoc, List.length_cons, readHeaders,
      bind_of_ok (read _)] at h
    by_cases good : Inside imageSize header
    · simp only [inside_iff.mpr good, Bool.false_eq_true, ↓reduceIte] at h
      split at h
      · exact absurd h throw_ne_ok
      · have others := ih (fun x member => known x (by simp [member]))
          (fun x member => bounds x (by simp [member])) (by
            rw [StreamHeader.length_bytes, StreamHeader.diskSize]
            omega) h
        intro x member
        rcases List.mem_cons.mp member with rfl | member
        · exact good
        · exact others x member
    · have bad := (Bool.not_eq_false _).mp (mt inside_iff.mp good)
      simp only [bad, ↓reduceIte] at h
      exact absurd h throw_ne_ok

/-- The bytes of a root in front of its headers. -/
def start (version : String) (count : Nat) : Bytes :=
  u32Bytes magic ++ u16Bytes 1 ++ u16Bytes 1 ++ u32Bytes 0 ++ leBytes 4 (versionFieldSize version)
    ++ (utf8Bytes version ++ zeros (versionFieldSize version - version.utf8ByteSize)) ++ u16Bytes 0
    ++ leBytes 2 count

theorem length_utf8Bytes (text : String) : (utf8Bytes text).length = text.utf8ByteSize := by
  rw [utf8Bytes, Utf8.length_encode, String.ofList_toList]

theorem length_field (version : String) :
    (utf8Bytes version ++ zeros (versionFieldSize version - version.utf8ByteSize)).length =
      versionFieldSize version := by
  rw [List.length_append, length_utf8Bytes, zeros, List.length_replicate, versionFieldSize]
  omega

theorem length_start (version : String) (count : Nat) :
    (start version count).length = 20 + versionFieldSize version := by
  have field := length_field version
  simp only [start, List.length_append, u32Bytes, u16Bytes, length_leBytes] at field ⊢
  omega

/-- The field of a version ends with a zero at least, so the text up to its first zero comes back. -/
theorem takeWhile_field (version : String) :
    (utf8Bytes version ++ zeros (versionFieldSize version - version.utf8ByteSize)).takeWhile
      (· != 0) = utf8Bytes (beforeNul version) := by
  have room : 0 < versionFieldSize version - version.utf8ByteSize := by
    rw [versionFieldSize]
    omega
  obtain ⟨count, h⟩ := Nat.exists_eq_succ_of_ne_zero (Nat.pos_iff_ne_zero.mp room)
  obtain ⟨more, same⟩ := utf8Bytes_split version (zeros count)
  rw [h, zeros, List.replicate_succ]
  change (utf8Bytes version ++ 0 :: zeros count).takeWhile (· != 0) = _
  rw [same]
  exact takeWhile_nonzero (Utf8.zero_notMem_encode (nul_notMem_beforeNul version)) _

theorem reads_start {version : String} (short : versionFieldSize version ≤ maxVersionSize) {headers : List StreamHeader}
    (nonempty : headers ≠ []) (few : headers.length < 2 ^ 16) (imageSize : Nat) (rest : Bytes) :
    Root.read imageSize ⟨0, start version headers.length ++ rest⟩ =
      (do
        let streams ← readHeaders imageSize [] headers.length
        return ⟨1, 1, beforeNul version, 0, streams⟩ : Reader Root)
        ⟨(start version headers.length).length, rest⟩ := by
  have size : (UInt32.ofNat (versionFieldSize version)).toNat = versionFieldSize version := by
    have : maxVersionSize < 2 ^ 32 := by decide
    rw [UInt32.toNat_ofNat', Nat.mod_eq_of_lt (by omega)]
  have fits : ¬ maxVersionSize < versionFieldSize version := Nat.not_lt.mpr short
  have positive := List.length_pos_iff.mpr nonempty
  have count : (UInt16.ofNat headers.length).toNat = headers.length := by
    rw [UInt16.toNat_ofNat', Nat.mod_eq_of_lt few]
  have some : (UInt16.ofNat headers.length == 0) = false := by
    rw [beq_eq_false_iff_ne]
    intro zero
    have := congrArg UInt16.toNat zero
    rw [count] at this
    exact Nat.ne_of_gt positive this
  have decoded : Utf8.decode? (utf8Bytes (beforeNul version)) = .some (beforeNul version).toList := Utf8.decode?_encode _
  have sizeBound : versionFieldSize version < 2 ^ 32 := Nat.lt_of_le_of_lt short (by decide)
  unfold Root.read
  simp only [start, List.append_assoc]
  rw [bind_of_ok ((reads_u32 0 magic).orDefect _ _)]
  simp only [bne_self_eq_false, Bool.false_eq_true, ↓reduceIte]
  rw [bind_of_ok (reads_u16 _ 1 _), bind_of_ok (reads_u16 _ 1 _)]
  simp only [bne_self_eq_false, Bool.or_self, Bool.false_eq_true, ↓reduceIte]
  rw [bind_of_ok (reads_u32 _ 0 _), bind_of_ok (reads_u32_ofNat sizeBound _ _)]
  simp only [size, fits, ↓reduceIte]
  rw [← List.append_assoc (utf8Bytes version),
    bind_of_ok (reads_take_of_length _ (length_field version) _)]
  simp only [takeWhile_field version, decoded]
  rw [bind_of_ok (reads_u16 _ 0 _), bind_of_ok (reads_u16_ofNat few _ _)]
  simp only [some, count, Bool.false_eq_true, ↓reduceIte, String.ofList_toList]
  simp only [List.length_append, Nat.zero_add, Nat.add_assoc]

/-- Streams that can share an image. -/
structure Streams (streams : List (String × Bytes)) : Prop where
  known : ∀ s ∈ streams, s.1 ∈ StreamName.known
  distinct : (streams.map (·.1)).Nodup
  nonempty : streams ≠ []
  few : streams.length < 2 ^ 16

def rootSize (version : String) (streams : List (String × Bytes)) : Nat :=
  20 + versionFieldSize version + (streams.map fun s => StreamHeader.diskSize s.1).sum

/-- The headers in the image of some streams. -/
def headersOf (version : String) (streams : List (String × Bytes)) : List StreamHeader :=
  headersFrom (rootSize version streams) streams

/-- What is read from the image of some streams. -/
def ofStreams (version : String) (streams : List (String × Bytes)) : Root :=
  ⟨1, 1, version, 0, headersOf version streams⟩

theorem length_headersOf (version : String) (streams : List (String × Bytes)) :
    (headersOf version streams).length = streams.length := by
  have names := congrArg List.length (names_headersFrom (rootSize version streams) streams)
  rw [List.length_map, List.length_map] at names
  exact names

theorem known_headersOf {streams : List (String × Bytes)} (good : Streams streams) (version : String) :
    ∀ h ∈ headersOf version streams, h.name ∈ StreamName.known := by
  intro h member
  have name : h.name ∈ (headersOf version streams).map (·.name) := List.mem_map_of_mem member
  rw [headersOf, names_headersFrom] at name
  obtain ⟨s, hs, same⟩ := List.mem_map.mp name
  exact same ▸ good.known s hs

theorem length_front (version : String) (streams : List (String × Bytes)) :
    (start version streams.length ++ (headersOf version streams).flatMap StreamHeader.bytes).length =
      rootSize version streams := by
  have names := names_headersFrom (rootSize version streams) streams
  have sizes : ((headersOf version streams).flatMap StreamHeader.bytes).length =
      (((headersOf version streams).map (·.name)).map StreamHeader.diskSize).sum := by
    rw [List.length_flatMap, List.map_map]
    congr 1
    exact List.map_congr_left fun h _ => StreamHeader.length_bytes h
  rw [List.length_append, length_start, sizes, headersOf, names, List.map_map, rootSize]
  rfl

theorem build_eq {version : String} {streams : List (String × Bytes)} {data : Bytes}
    (h : build version streams = .ok data) :
    versionFieldSize version ≤ maxVersionSize ∧
      (∀ header ∈ headersOf version streams, header.offset < 2 ^ 32 ∧ header.size < 2 ^ 32) ∧
      data = start version streams.length
        ++ ((headersOf version streams).flatMap StreamHeader.bytes ++ contents streams) := by
  unfold build at h
  simp only at h
  split at h
  · cases h
  · rename_i short
    obtain ⟨headers, directory, last⟩ := Outcome.bind_eq_ok.mp h
    obtain ⟨rfl, bounds⟩ := directory_eq directory
    have aligned : (start version streams.length).length % 4 = 0 := by
      rw [length_start, versionFieldSize]
      omega
    have appended := StreamHeader.foldl_appendTo aligned
      (headersFrom (20 + versionFieldSize version + (streams.map fun s => StreamHeader.diskSize s.1).sum)
        streams)
    refine ⟨Nat.le_of_not_lt short, bounds, ?_⟩
    rw [← Outcome.pure_eq_ok.mp last]
    exact (congrArg (· ++ contents streams) appended).trans (List.append_assoc _ _ _)

theorem exists_directory {offset : Nat} {streams : List (String × Bytes)} (fits : offset + (contents streams).length < 2 ^ 32) :
    ∃ headers, directory offset streams = .ok headers := by
  induction streams generalizing offset with
  | nil => exact ⟨[], rfl⟩
  | cons stream streams ih =>
    obtain ⟨name, data⟩ := stream
    rw [contents_cons, List.length_append, padTo_length_eq] at fits
    have inside : offset + (data.length + 3) / 4 * 4 + (contents streams).length < 2 ^ 32 := by omega
    obtain ⟨headers, others⟩ := ih inside
    refine ⟨⟨name, offset, (data.length + 3) / 4 * 4⟩ :: headers, ?_⟩
    rw [directory, if_neg (by omega), if_neg (by omega), others]
    rfl

theorem exists_build {version : String} {streams : List (String × Bytes)} (short : versionFieldSize version ≤ maxVersionSize)
    (fits : rootSize version streams + (contents streams).length < 2 ^ 32) : ∃ data, build version streams = .ok data := by
  obtain ⟨headers, made⟩ := exists_directory fits
  unfold build
  dsimp only
  rw [if_neg (Nat.not_lt.mpr short)]
  unfold rootSize at made
  rw [made]
  exact ⟨_, rfl⟩

theorem directory_fails (offset : Nat) (streams : List (String × Bytes)) :
    Outcome.FailsWith (fun e => e = .malformed .imageTooLarge ∨ e = .malformed .streamTooLarge) (directory offset streams) := by
  induction streams generalizing offset with
  | nil => exact .ok []
  | cons stream streams ih =>
    unfold directory
    exact .ite (.error (.inl rfl)) (.ite (.error (.inr rfl)) ((ih _).bind fun headers => .pure _))

/-- An image is refused for its version or for its size. -/
theorem build_fails (version : String) (streams : List (String × Bytes)) :
    Outcome.FailsWith (fun e => (e = .malformed (.versionTooLong version) ∧ maxVersionSize < versionFieldSize version) ∨
      (versionFieldSize version ≤ maxVersionSize ∧ (e = .malformed .imageTooLarge ∨ e = .malformed .streamTooLarge) ∧
        2 ^ 32 ≤ rootSize version streams + (contents streams).length)) (build version streams) := by
  by_cases short : versionFieldSize version ≤ maxVersionSize
  · by_cases fits : rootSize version streams + (contents streams).length < 2 ^ 32
    · obtain ⟨data, built⟩ := exists_build short fits
      rw [built]
      exact .ok data
    · unfold build
      dsimp only
      rw [if_neg (Nat.not_lt.mpr short)]
      refine Outcome.FailsWith.bind (fun e failed => .inr ⟨short, ?_, Nat.le_of_not_lt fits⟩) fun headers => .pure _
      exact directory_fails _ streams e failed
  · unfold build
    dsimp only
    rw [if_pos (Nat.lt_of_not_le short)]
    exact .error (.inl ⟨rfl, Nat.lt_of_not_le short⟩)

theorem length_build {version : String} {streams : List (String × Bytes)} {data : Bytes}
    (h : build version streams = .ok data) :
    data.length = rootSize version streams + (contents streams).length := by
  obtain ⟨-, -, rfl⟩ := build_eq h
  rw [← List.append_assoc, List.length_append, length_front]

theorem build_ne_nil {version : String} {streams : List (String × Bytes)} {data : Bytes}
    (h : build version streams = .ok data) : data ≠ [] := by
  have length := length_build h
  rintro rfl
  rw [List.length_nil, rootSize] at length
  omega

/-- An image below the reach of its offsets is read, with the version up to its first zero character. The streams
    are what is left behind the root. -/
theorem read_build_beforeNul {version : String} {streams : List (String × Bytes)} {data : Bytes}
    (h : build version streams = .ok data) (good : Streams streams) (size : data.length < 2 ^ 32) :
    Root.read data.length (.start data) =
      .ok { ofStreams version streams with version := beforeNul version } ⟨rootSize version streams, contents streams⟩ := by
  have length := length_build h
  have front := length_front version streams
  obtain ⟨short, bounds, rfl⟩ := build_eq h
  have nonempty : headersOf version streams ≠ [] := by
    intro none
    have count := length_headersOf version streams
    rw [none] at count
    exact good.nonempty (List.eq_nil_of_length_eq_zero count.symm)
  have few := good.few
  rw [← length_headersOf version streams] at few
  have inside : ∀ header ∈ headersOf version streams,
      Inside (start version streams.length ++ ((headersOf version streams).flatMap StreamHeader.bytes
        ++ contents streams)).length header := by
    intro header member
    have reach := end_le_of_mem member
    exact ⟨by omega, by omega⟩
  have distinct : ((headersOf version streams).map (·.name)).Nodup := by
    rw [headersOf, names_headersFrom]
    exact good.distinct
  have aligned : (start version (headersOf version streams).length).length % 4 = 0 := by
    rw [length_start, versionFieldSize]
    omega
  have headers := reads_headers (known_headersOf good version) inside distinct
    (fun _ _ _ old => absurd old List.not_mem_nil) aligned
  unfold Cursor.start
  rw [← length_headersOf version streams, reads_start short nonempty few]
  rw [length_headersOf version streams] at headers ⊢
  rw [bind_of_ok (headers _), ← List.length_append, front]
  rfl

theorem parse_build_beforeNul {version : String} {streams : List (String × Bytes)} {data : Bytes}
    (h : build version streams = .ok data) (good : Streams streams) (size : data.length < 2 ^ 32) :
    Root.parse data = .ok { ofStreams version streams with version := beforeNul version } := by
  unfold Root.parse Reader.parse EStateM.run
  rw [read_build_beforeNul h good size]

theorem parse_build {version : String} {streams : List (String × Bytes)} {data : Bytes}
    (h : build version streams = .ok data) (noNul : '\x00' ∉ version.toList) (good : Streams streams)
    (size : data.length < 2 ^ 32) : Root.parse data = .ok (ofStreams version streams) := by
  have read := parse_build_beforeNul h good size
  rw [beforeNul_eq noNul] at read
  exact read

/-- An image that is read is below the reach of its offsets. -/
theorem length_lt_of_parse {version : String} {streams : List (String × Bytes)} {data : Bytes} {root : Root}
    (h : build version streams = .ok data) (good : Streams streams) (read : Root.parse data = .ok root) : data.length < 2 ^ 32 := by
  have length := length_build h
  obtain ⟨short, bounds, rfl⟩ := build_eq h
  have nonempty : headersOf version streams ≠ [] := by
    intro none
    have count := length_headersOf version streams
    rw [none] at count
    exact good.nonempty (List.eq_nil_of_length_eq_zero count.symm)
  have few := good.few
  rw [← length_headersOf version streams] at few
  have aligned : (start version (headersOf version streams).length).length % 4 = 0 := by
    rw [length_start, versionFieldSize]
    omega
  unfold Root.parse Reader.parse EStateM.run Cursor.start at read
  rw [← length_headersOf version streams, reads_start short nonempty few] at read
  split at read
  · rename_i run
    obtain ⟨headers, after, hheaders, -⟩ := bind_eq_ok.mp run
    have inside := inside_of_readHeaders (known_headersOf good version) bounds aligned hheaders
    obtain ⟨header, member, reach⟩ := exists_end_eq good.nonempty (rootSize version streams)
    have last := (inside header member).1
    omega
  · cases read

theorem stream?_ofStreams {version : String} {streams : List (String × Bytes)} {data : Bytes}
    (h : build version streams = .ok data) (name : String) :
    (ofStreams version streams).stream? data name = (streams.lookup name).map (padTo 4) := by
  obtain ⟨-, -, rfl⟩ := build_eq h
  have found := find_headersFrom
    (start version streams.length ++ (headersOf version streams).flatMap StreamHeader.bytes) streams name
  rw [length_front, List.append_assoc] at found
  exact found

end Root

end CilWeaver
