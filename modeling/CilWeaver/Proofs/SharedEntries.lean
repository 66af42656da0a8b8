import CilWeaver.Proofs.Heaps

/-!
What all heaps have in common: whatever values are added in whatever order, and whichever of them are
refused, the heap that is built in the end has each value at the index that was answered for it, and equal
values share an index.
-/

namespace CilWeaver

/-- A heap under construction, together with the reader of the bytes that it is built into. -/
structure HeapFormat (α σ η : Type) where
  empty : σ
  add : α → EStateM Error σ Nat
  build : σ → Bytes
  parse : Bytes → Result η
  get : η → Nat → Result α
  /-- The value that index zero stands for. -/
  null? : Option α

namespace HeapFormat

def strings : HeapFormat String StringHeapBuilder StringHeap :=
  ⟨{}, StringHeapBuilder.add, StringHeapBuilder.build, StringHeap.parse, StringHeap.get, some ""⟩

def userStrings : HeapFormat String UserStringHeapBuilder UserStringHeap :=
  ⟨{}, UserStringHeapBuilder.add, UserStringHeapBuilder.build, UserStringHeap.parse, UserStringHeap.get, none⟩

def blobs : HeapFormat Bytes BlobHeapBuilder BlobHeap :=
  ⟨{}, BlobHeapBuilder.add, BlobHeapBuilder.build, BlobHeap.parse, BlobHeap.get, some []⟩

def guids : HeapFormat Guid GuidHeapBuilder GuidHeap :=
  ⟨{}, GuidHeapBuilder.add, GuidHeapBuilder.build, GuidHeap.parse, GuidHeap.get, some .nil⟩

variable {α σ η : Type} (kind : HeapFormat α σ η)

/-- Adds values one after the other, also behind one that is refused. The result is what each addition
    answered, and the heap in the end. -/
def addAll : List α → σ → List (α × Result Nat) × σ
  | [], b => ([], b)
  | value :: values, b =>
    let (answer, b') : Result Nat × σ := match kind.add value b with
      | .ok index b' => (.ok index, b')
      | .error e b' => (.error e, b')
    let (answers, last) := addAll values b'
    ((value, answer) :: answers, last)

def answers (values : List α) : List (α × Result Nat) := (kind.addAll values kind.empty).1

def after (values : List α) : σ := (kind.addAll values kind.empty).2

/-- Values are stored faithfully and shared, whichever are added to the empty heap. -/
structure Faithful : Prop where
  /-- A value that is refused leaves the heap as it was. -/
  unchanged : ∀ value b e b', kind.add value b = .error e b' → b' = b
  /-- The heap fills its stream, its reader accepts it, and it has every value at the index of the value. -/
  readable : ∀ values, padTo 4 (kind.build (kind.after values)) = kind.build (kind.after values) ∧
    ∃ heap, kind.parse (kind.build (kind.after values)) = .ok heap ∧
      ∀ value index, (value, .ok index) ∈ kind.answers values → kind.get heap index = .ok value
  /-- Equal values, and no others, have the same index. -/
  shared : ∀ values v w m n, (v, .ok m) ∈ kind.answers values → (w, .ok n) ∈ kind.answers values → (m = n ↔ v = w)
  /-- Index zero is for the value that needs no entry, and no other. -/
  null : ∀ values value index, (value, .ok index) ∈ kind.answers values → (index = 0 ↔ kind.null? = some value)
  /-- The value that needs no entry is never refused. -/
  add_null : ∀ value b, kind.null? = some value → kind.add value b = .ok 0 b

/-- What a single addition does, and what the reader finds: `index?` is the index of a value that is in the heap. -/
structure Laws (index? : σ → α → Option Nat) (Sound : σ → Prop) (next : σ → Nat) (Stores : σ → α → σ → Prop) :
    Prop where
  sound_empty : Sound kind.empty
  sound_add : ∀ {value b index b'}, Sound b → kind.add value b = .ok index b' → Sound b'
  ends : ∀ value b, HeapAddition b (index? b value) (next b) (Stores b value) (kind.add value b)
  stores : ∀ {value b b'}, index? b value = none → Stores b value b' → index? b' value = some (next b)
  keeps : ∀ {value b b' other i}, Stores b value b' → index? b other = some i → index? b' other = some i
  fills : ∀ b, padTo 4 (kind.build b) = kind.build b
  reads : ∀ {b}, Sound b → ∃ heap, kind.parse (kind.build b) = .ok heap ∧
    ∀ {value index}, index? b value = some index → kind.get heap index = .ok value
  null : ∀ {value} b, kind.null? = some value → index? b value = some 0
  nonzero : ∀ {value b}, kind.null? = none → Sound b → index? b value ≠ some 0

namespace Laws

variable {kind} {index? : σ → α → Option Nat} {Sound : σ → Prop} {next : σ → Nat} {Stores : σ → α → σ → Prop}
  (laws : kind.Laws index? Sound next Stores)

include laws

theorem add_error {value : α} {b b' : σ} {e : Error} (h : kind.add value b = .error e b') : b' = b := by
  have ends := laws.ends value b
  rw [h] at ends
  cases ends
  rfl

theorem add_known {value : α} {b : σ} {index : Nat} (found : index? b value = some index) :
    kind.add value b = .ok index b := by
  have ends := laws.ends value b
  rw [found] at ends
  generalize kind.add value b = answer at ends
  cases ends with
  | known same => rw [Option.some.inj same]
  | stored new => cases new
  | refused new => cases new

/-- A value that was added is in the heap, and so are those that were in it before. -/
theorem add_ok {value : α} {b b' : σ} {index : Nat} (h : kind.add value b = .ok index b') :
    index? b' value = some index ∧ ∀ {other i}, index? b other = some i → index? b' other = some i := by
  have ends := laws.ends value b
  rw [h] at ends
  cases ends with
  | known found => exact ⟨found, id⟩
  | stored new stored => exact ⟨laws.stores new stored, laws.keeps stored⟩

/-- What every addition keeps is kept by all of them, since one that is refused changes nothing. -/
theorem addAll_keeps {p : σ → Prop} (keeps : ∀ {value b index b'}, p b → kind.add value b = .ok index b' → p b')
    (values : List α) {b : σ} (before : p b) : p (kind.addAll values b).2 := by
  induction values generalizing b with
  | nil => exact before
  | cons value values ih =>
    rw [addAll]
    cases run : kind.add value b with
    | ok index b' => exact ih (keeps before run)
    | error e b' => exact ih (laws.add_error run ▸ before)

/-- After all additions, every answer is the index of its value, and older values have kept theirs. -/
theorem addAll_ok (values : List α) {b : σ} (sound : Sound b) :
    Sound (kind.addAll values b).2 ∧
      (∀ {value index}, (value, .ok index) ∈ (kind.addAll values b).1 →
        index? (kind.addAll values b).2 value = some index) ∧
      ∀ {other i}, index? b other = some i → index? (kind.addAll values b).2 other = some i := by
  induction values generalizing b with
  | nil => exact ⟨sound, fun member => absurd member List.not_mem_nil, id⟩
  | cons first values ih =>
    rw [addAll]
    cases run : kind.add first b with
    | error e b' =>
      obtain rfl := laws.add_error run
      obtain ⟨last, found, kept⟩ := ih sound
      refine ⟨last, fun member => ?_, kept⟩
      rcases List.mem_cons.mp member with refused | later
      · cases refused
      · exact found later
    | ok index b' =>
      obtain ⟨new, old⟩ := laws.add_ok run
      obtain ⟨last, found, kept⟩ := ih (laws.sound_add sound run)
      refine ⟨last, fun member => ?_, fun there => kept (old there)⟩
      rcases List.mem_cons.mp member with here | later
      · cases here
        exact kept new
      · exact found later

theorem faithful : kind.Faithful := by
  have history := fun values => laws.addAll_ok values laws.sound_empty
  refine ⟨fun _ _ _ _ => laws.add_error, fun values => ?_, fun values v w m n hv hw => ?_,
    fun values value index member => ?_, fun value b null => ?_⟩
  · obtain ⟨sound, found, -⟩ := history values
    obtain ⟨heap, parsed, reads⟩ := laws.reads sound
    exact ⟨laws.fills _, heap, parsed, fun value index member => reads (found member)⟩
  · obtain ⟨sound, found, -⟩ := history values
    obtain ⟨heap, -, reads⟩ := laws.reads sound
    have atM := reads (found hv)
    have atN := reads (found hw)
    constructor
    · rintro rfl
      exact Except.ok.inj (atM.symm.trans atN)
    · rintro rfl
      exact Option.some.inj ((found hv).symm.trans (found hw))
  · obtain ⟨sound, found, -⟩ := history values
    obtain ⟨heap, -, reads⟩ := laws.reads sound
    have here := found member
    constructor
    · rintro rfl
      cases null : kind.null? with
      | none => exact absurd here (laws.nonzero null sound)
      | some other =>
        have read := reads (laws.null _ null)
        rw [reads here] at read
        rw [Except.ok.inj read]
    · intro null
      exact Option.some.inj (here.symm.trans (laws.null _ null))
  · exact laws.add_known (laws.null b null)

end Laws

section

variable [BEq α] {isNull : α → Bool} {entries : List (α × Nat)} {value : α} {index : Nat}

theorem entryIndex?_of_new [LawfulBEq α] (new : entryIndex? isNull entries value = none) :
    entryIndex? isNull (entries ++ [(value, index)]) value = some index := by
  unfold entryIndex? at new ⊢
  split at new
  · cases new
  · rename_i nonnull
    rw [if_neg nonnull, List.lookup_append, new, Option.none_or, List.lookup_cons_self]

theorem entryIndex?_append (found : entryIndex? isNull entries value = some index) (more : List (α × Nat)) :
    entryIndex? isNull (entries ++ more) value = some index := by
  unfold entryIndex? at found ⊢
  split at found
  · rename_i null
    rw [if_pos null, found]
  · rename_i nonnull
    rw [if_neg nonnull, List.lookup_append, found, Option.some_or]

end

section

variable {b : GuidHeapBuilder} {guid : Guid}

theorem guidIndex?_of_new (new : b.index? guid = none) :
    GuidHeapBuilder.index? ⟨b.guids ++ [guid]⟩ guid = some (b.guids.length + 1) := by
  unfold GuidHeapBuilder.index? at new ⊢
  split at new
  · cases new
  · rename_i nonnil
    have absent : b.guids.idxOf? guid = none := Option.map_eq_none_iff.mp new
    unfold List.idxOf? at absent ⊢
    rw [if_neg nonnil, List.findIdx?_append, absent]
    simp

theorem guidIndex?_append {index : Nat} (found : b.index? guid = some index) (more : List Guid) :
    GuidHeapBuilder.index? ⟨b.guids ++ more⟩ guid = some index := by
  unfold GuidHeapBuilder.index? at found ⊢
  split at found
  · rename_i isNil
    rw [if_pos isNil, found]
  · rename_i nonnil
    obtain ⟨position, there, rfl⟩ := Option.map_eq_some_iff.mp found
    unfold List.idxOf? at there ⊢
    rw [if_neg nonnil, List.findIdx?_append, there, Option.some_or, Option.map_some]

end

theorem strings_laws : strings.Laws StringHeapBuilder.index? StringHeapBuilder.Sound (·.data.length)
    StringHeapBuilder.Stores where
  sound_empty := StringHeapBuilder.sound_empty
  sound_add sound added := (StringHeapBuilder.add_ok sound added).1
  ends := StringHeapBuilder.add_ends
  stores := by
    rintro value b b' new ⟨-, rfl⟩
    exact entryIndex?_of_new new
  keeps := by
    rintro value b b' other i ⟨-, rfl⟩ found
    exact entryIndex?_append found _
  fills b := padTo_padTo b.data
  reads {b} sound := ⟨⟨b.build⟩, if_pos (head?_padTo sound.start), fun found => sound.holds_index found _⟩
  null := by
    rintro value b null
    cases null
    rfl
  nonzero null := by cases null

theorem blobs_laws : blobs.Laws BlobHeapBuilder.index? BlobHeapBuilder.Sound (·.data.length)
    BlobHeapBuilder.Stores where
  sound_empty := BlobHeapBuilder.sound_empty
  sound_add sound added := (BlobHeapBuilder.add_ok sound added).1
  ends := BlobHeapBuilder.add_ends
  stores := by
    rintro value b b' new ⟨length, -, rfl⟩
    exact entryIndex?_of_new new
  keeps := by
    rintro value b b' other i ⟨length, -, rfl⟩ found
    exact entryIndex?_append found _
  fills b := padTo_padTo b.data
  reads {b} sound := ⟨⟨b.build⟩, if_pos (head?_padTo sound.start), fun found => sound.holds_index found _⟩
  null := by
    rintro value b null
    cases null
    rfl
  nonzero null := by cases null

/-- Literals have no index zero, since nothing is read there. -/
theorem userStrings_laws : userStrings.Laws UserStringHeapBuilder.index? UserStringHeapBuilder.Sound (·.data.length)
    UserStringHeapBuilder.Stores where
  sound_empty := UserStringHeapBuilder.sound_empty
  sound_add sound added := (UserStringHeapBuilder.add_ok sound added).1
  ends := UserStringHeapBuilder.add_ends
  stores := by
    rintro value b b' new ⟨-, length, mark, -, rfl⟩
    exact entryIndex?_of_new new
  keeps := by
    rintro value b b' other i ⟨-, length, mark, -, rfl⟩ found
    exact entryIndex?_append found _
  fills b := padTo_padTo b.data
  reads {b} sound := ⟨⟨b.build⟩, if_pos (head?_padTo sound.start), fun found => (sound.holds_index found).2 _⟩
  null _ null := by cases null
  nonzero _ sound found := by
    have read := (sound.holds_index found).2 []
    cases read

theorem guids_laws : guids.Laws GuidHeapBuilder.index? (fun _ => True) (·.guids.length + 1)
    fun b guid b' => b' = ⟨b.guids ++ [guid]⟩ where
  sound_empty := trivial
  sound_add _ _ := trivial
  ends := GuidHeapBuilder.add_ends
  stores := by
    rintro guid b _ new rfl
    exact guidIndex?_of_new new
  keeps := by
    rintro guid b _ other i rfl found
    exact guidIndex?_append found _
  fills := GuidHeapBuilder.padTo_build
  reads {b} _ := by
    have parsed := b.parse_build
    rw [b.padTo_build] at parsed
    refine ⟨⟨b.build⟩, parsed, fun {guid index} found => ?_⟩
    have read := GuidHeapBuilder.holds_index found []
    rwa [List.append_nil] at read
  null := by
    rintro value b null
    cases null
    rfl
  nonzero null := by cases null

example : userStrings.answers ["", "ab", ""] = [("", .ok 1), ("ab", .ok 3), ("", .ok 1)] := rfl

example : (strings.answers ["ab", "a\x00b", "b", "ab"]).map (·.2.toOption) = [some 1, none, some 4, some 1] := rfl

end HeapFormat

end CilWeaver
