import CilWeaver.Proofs.Writes

/-!
Writers that get to an end, or give up for a reason that is known beforehand. Equal items share an entry of a heap, so
that a heap is never longer than all the different items that it may be given. The code has no such bound: its writers
have a cost, and costs add up.
-/

namespace CilWeaver

open Step

section

variable {σ α β : Type} {left : σ → Prop} {room : Nat → σ → Prop} {reason : Error → Prop} {P : α → Prop}
  {cost cost' : Nat}

/-- How an attempt ends: in a state that `left` holds for, or with a failure for one of the reasons. -/
def Attempt (left : σ → Prop) (reason : Error → Prop) : EStateM.Result Error σ α → Prop
  | .ok _ d => left d
  | .error e _ => reason e

/-- From every state with room for the cost the writer gets to one with what is left of the room, or it fails for one
    of the reasons. -/
def Attempts (room : Nat → σ → Prop) (reason : Error → Prop) (cost : Nat) (w : EStateM Error σ α) : Prop :=
  ∀ rest d, room (cost + rest) d → Attempt (room rest) reason (w d)

theorem attempt_iff {result : EStateM.Result Error σ α} : Attempt left reason result ↔
    (∃ a d, result = .ok a d ∧ left d) ∨ ∃ e d, result = .error e d ∧ reason e := by
  cases result with
  | ok a d =>
    refine ⟨fun ends => .inl ⟨a, d, rfl, ends⟩, ?_⟩
    rintro (⟨a, d, same, ends⟩ | ⟨e, d, same, -⟩) <;> cases same
    exact ends
  | error e d =>
    refine ⟨fun ends => .inr ⟨e, d, rfl, ends⟩, ?_⟩
    rintro (⟨a, d, same, -⟩ | ⟨e, d, same, ends⟩) <;> cases same
    exact ends

theorem Attempt.exists_ok {result : EStateM.Result Error σ α} (ends : Attempt left reason result)
    (none : ∀ e, ¬ reason e) : ∃ a d, result = .ok a d ∧ left d :=
  (attempt_iff.mp ends).resolve_right fun ⟨e, _, _, failed⟩ => none e failed

namespace Attempts

theorem pure (a : α) : Attempts room reason 0 (Pure.pure a) := by
  intro rest d enough
  rwa [Nat.zero_add] at enough

theorem throw {e : Error} (known : reason e) : Attempts room reason cost (MonadExcept.throw e : EStateM Error σ α) :=
  fun _ _ _ => known

/-- What the first step answers may depend on the room before it and behind it. -/
theorem bind_of {x : EStateM Error σ α} {f : α → EStateM Error σ β} (first : Attempts room reason cost x)
    (answers : ∀ rest rest' d a d', room rest d → x d = .ok a d' → room rest' d' → P a)
    (second : ∀ a, P a → Attempts room reason cost' (f a)) : Attempts room reason (cost + cost') (x >>= f) := by
  intro rest d enough
  rw [Nat.add_assoc] at enough
  have ends := first _ d enough
  rw [bind_apply]
  cases run : x d with
  | ok a d' =>
    rw [run] at ends
    exact second a (answers _ _ d a d' enough run ends) rest d' ends
  | error e d' =>
    rw [run] at ends
    exact ends

theorem bind {x : EStateM Error σ α} {f : α → EStateM Error σ β} (first : Attempts room reason cost x)
    (second : ∀ a, Attempts room reason cost' (f a)) : Attempts room reason (cost + cost') (x >>= f) :=
  first.bind_of (P := fun _ => True) (fun _ _ _ _ _ _ _ _ => trivial) fun a _ => second a

theorem free_bind_of {x : EStateM Error σ α} {f : α → EStateM Error σ β} (first : Attempts room reason 0 x)
    (answers : ∀ rest rest' d a d', room rest d → x d = .ok a d' → room rest' d' → P a)
    (second : ∀ a, P a → Attempts room reason cost (f a)) : Attempts room reason cost (x >>= f) := by
  rw [← Nat.zero_add cost]
  exact first.bind_of answers second

theorem free_bind {x : EStateM Error σ α} {f : α → EStateM Error σ β} (first : Attempts room reason 0 x)
    (second : ∀ a, Attempts room reason cost (f a)) : Attempts room reason cost (x >>= f) := by
  rw [← Nat.zero_add cost]
  exact first.bind second

theorem bind_free {x : EStateM Error σ α} {f : α → EStateM Error σ β} (first : Attempts room reason cost x)
    (second : ∀ a, Attempts room reason 0 (f a)) : Attempts room reason cost (x >>= f) := by
  have both := first.bind second
  exact both

theorem map {x : EStateM Error σ α} (h : Attempts room reason cost x) (f : α → β) :
    Attempts room reason cost (x >>= fun a => Pure.pure (f a)) :=
  h.bind_free fun a => pure (f a)

theorem mapM {f : α → EStateM Error σ β} {items : List α} {c : α → Nat}
    (each : ∀ a ∈ items, Attempts room reason (c a) (f a)) : Attempts room reason (items.map c).sum (items.mapM f) := by
  induction items with
  | nil => exact pure []
  | cons a items ih =>
    rw [List.mapM_cons, List.map_cons, List.sum_cons]
    have first := each a List.mem_cons_self
    have others := ih fun b member => each b (List.mem_cons_of_mem a member)
    exact first.bind fun b => others.map fun bs => b :: bs

theorem mapM_free {f : α → EStateM Error σ β} {items : List α} (each : ∀ a ∈ items, Attempts room reason 0 (f a)) :
    Attempts room reason 0 (items.mapM f) := by
  have all := mapM (c := fun _ => 0) each
  rwa [List.map_const', List.sum_replicate, smul_zero] at all

end Attempts

end

/-! Heaps -/

theorem notMem_of_lookup {α β : Type} [BEq α] [LawfulBEq α] {entries : List (α × β)} {key : α}
    (absent : entries.lookup key = none) : key ∉ entries.map (·.1) := by
  intro member
  obtain ⟨entry, inside, same⟩ := List.mem_map.mp member
  have found := List.lookup_eq_none_iff.mp absent entry inside
  rw [bne_iff_ne] at found
  exact found same.symm

section

variable {α : Type}

/-- The space that a heap takes for all of some items, its first byte included. -/
def heapSpace [DecidableEq α] (size : α → Nat) (items : List α) : Nat := 1 + (items.dedup.map size).sum

theorem sum_le_of_nodup [DecidableEq α] {keys items : List α} (distinct : keys.Nodup) (given : keys ⊆ items) (size : α → Nat) :
    (keys.map size).sum ≤ (items.dedup.map size).sum := by
  have sub : keys.Subperm items.dedup := distinct.subperm fun a member => List.mem_dedup.mpr (given member)
  obtain ⟨same, perm, sublist⟩ := sub
  rw [← (perm.map size).sum_eq]
  exact (sublist.map size).sum_le_sum fun _ _ => Nat.zero_le _

/-- The entries of a heap are different items of a list, and nothing else takes space in it. -/
structure Accounts (size : α → Nat) (items : List α) (entries : List (α × Nat)) (length : Nat) : Prop where
  distinct : (entries.map (·.1)).Nodup
  given : entries.map (·.1) ⊆ items
  bound : length ≤ 1 + ((entries.map (·.1)).map size).sum

variable {size : α → Nat} {items : List α} {entries : List (α × Nat)} {length : Nat}

theorem Accounts.length_le [DecidableEq α] (accounts : Accounts size items entries length) : length ≤ heapSpace size items := by
  have most := sum_le_of_nodup accounts.distinct accounts.given size
  have bound := accounts.bound
  unfold heapSpace
  omega

theorem Accounts.add (accounts : Accounts size items entries length) {item : α} (member : item ∈ items)
    (absent : item ∉ entries.map (·.1)) {n : Nat} (small : n ≤ size item) (index : Nat) :
    Accounts size items (entries ++ [(item, index)]) (length + n) := by
  have names : (entries ++ [(item, index)]).map (·.1) = entries.map (·.1) ++ [item] := by simp
  refine ⟨?_, ?_, ?_⟩
  · rw [names]
    apply accounts.distinct.append (List.nodup_singleton item)
    rw [List.disjoint_singleton]
    exact absent
  · rw [names]
    exact List.append_subset.mpr ⟨accounts.given, List.cons_subset.mpr ⟨member, List.nil_subset _⟩⟩
  · rw [names, List.map_append, List.sum_append, List.map_singleton, List.sum_singleton]
    have bound := accounts.bound
    omega

end

/-- The bytes that a text takes in a heap, its end included. -/
def textSize (text : String) : Nat := (utf8Bytes text).length + 1

/-- The most bytes that a literal takes in a heap. -/
def literalSize (text : String) : Nat := 2 * (Utf16.encode text.toList).length + 5

/-- The most bytes that a blob takes in a heap. -/
def blobSize (blob : Bytes) : Nat := blob.length + 4

namespace StringHeapBuilder

def Within (items : List String) (b : StringHeapBuilder) : Prop := Accounts textSize items b.entries b.data.length

theorem within_empty (items : List String) : Within items {} := ⟨List.nodup_nil, List.nil_subset _, Nat.le_refl 1⟩

theorem add_within {reason : Error → Prop} {items : List String} {b : StringHeapBuilder} (within : b.Within items)
    {text : String} (member : text ∈ items)
    (nul : '\x00' ∈ text.toList → reason (.malformed (.nulInIdentifier text)))
    (full : 2 ^ 32 < heapSpace textSize items → reason (.malformed (.heapTooLarge .strings))) :
    Attempt (Within items) reason (add text b) := by
  unfold add
  rw [bind_of_ok (show (get : EStateM Error _ _) b = .ok b b from rfl)]
  by_cases empty : text.isEmpty = true
  · rw [if_pos empty]
    exact within
  · rw [if_neg empty]
    cases found : b.entries.lookup text with
    | some index => exact within
    | none =>
      have grown := within.add member (notMem_of_lookup found) (Nat.le_refl _) b.data.length
      have bound := grown.length_le
      have positive : 0 < textSize text := Nat.succ_pos _
      by_cases hasNul : '\x00' ∈ text.toList
      · rw [if_pos hasNul]
        exact nul hasNul
      · rw [if_neg hasNul]
        by_cases far : 2 ^ 32 ≤ b.data.length
        · rw [if_pos far]
          exact full (by omega)
        · rw [if_neg far]
          have size : (b.data ++ utf8Bytes text ++ [0]).length = b.data.length + textSize text := by
            rw [List.length_append, List.length_append, List.length_singleton, textSize, Nat.add_assoc]
          rw [← size] at grown
          exact grown

end StringHeapBuilder

namespace UserStringHeapBuilder

def Within (items : List String) (b : UserStringHeapBuilder) : Prop := Accounts literalSize items b.entries b.data.length

theorem within_empty (items : List String) : Within items {} := ⟨List.nodup_nil, List.nil_subset _, Nat.le_refl 1⟩

theorem add_within {reason : Error → Prop} {items : List String} {b : UserStringHeapBuilder} (within : b.Within items)
    {text : String} (member : text ∈ items)
    (long : 2 ^ 29 ≤ 2 * (Utf16.encode text.toList).length + 1 →
      reason (.malformed (.compressedTooLarge (2 * (Utf16.encode text.toList).length + 1))))
    (full : 2 ^ 24 < heapSpace literalSize items → reason (.malformed (.heapTooLarge .userStrings))) :
    Attempt (Within items) reason (add text b) := by
  unfold add
  rw [bind_of_ok (show (get : EStateM Error _ _) b = .ok b b from rfl)]
  cases found : b.entries.lookup text with
  | some index => exact within
  | none =>
    have grown {n : Nat} (small : n ≤ literalSize text) := within.add member (notMem_of_lookup found) small b.data.length
    have bound := (grown (Nat.le_refl _)).length_le
    dsimp only
    -- a literal that is new takes space, so that a heap which is already too long has too many items
    by_cases far : maxIndex < b.data.length
    · rw [if_pos far]
      have positive : 0 < literalSize text := Nat.succ_pos _
      unfold maxIndex at far
      exact full (by omega)
    · rw [if_neg far]
      by_cases large : 2 ^ 29 ≤ 2 * (Utf16.encode text.toList).length + 1
      · rw [compressed_of_le large]
        exact long large
      · obtain ⟨length, written⟩ := exists_compressed (Nat.lt_of_not_le large)
        have few := length_compressed_le written
        have stored := grown (n := length.length + 2 * (Utf16.encode text.toList).length + 1)
          (by unfold literalSize; omega)
        rw [written]
        change Within items _
        rw [Within, List.length_append, List.length_append, List.length_append, length_flatMap_u16Bytes,
          List.length_singleton, Nat.add_assoc, Nat.add_assoc, ← Nat.add_assoc length.length]
        exact stored

end UserStringHeapBuilder

namespace BlobHeapBuilder

def Within (items : List Bytes) (b : BlobHeapBuilder) : Prop := Accounts blobSize items b.entries b.data.length

theorem within_empty (items : List Bytes) : Within items {} := ⟨List.nodup_nil, List.nil_subset _, Nat.le_refl 1⟩

/-- A blob that is not known yet is stored behind its length, if both have a place. -/
theorem attempt_add {left : BlobHeapBuilder → Prop} {reason : Error → Prop} {b : BlobHeapBuilder} {blob : Bytes}
    (known : left b)
    (new : b.entries.lookup blob = none → b.data.length < 2 ^ 32 → ∀ length : Bytes, length.length ≤ 4 →
      left ⟨b.data ++ length ++ blob, b.entries ++ [(blob, b.data.length)]⟩)
    (long : 2 ^ 29 ≤ blob.length → reason (.malformed (.compressedTooLarge blob.length)))
    (full : b.entries.lookup blob = none → 2 ^ 32 ≤ b.data.length → reason (.malformed (.heapTooLarge .blobs))) :
    Attempt left reason (add blob b) := by
  unfold add
  rw [bind_of_ok (show (get : EStateM Error _ _) b = .ok b b from rfl)]
  by_cases empty : blob.isEmpty = true
  · rw [if_pos empty]
    exact known
  · rw [if_neg empty]
    cases found : b.entries.lookup blob with
    | some index => exact known
    | none =>
      dsimp only
      by_cases far : 2 ^ 32 ≤ b.data.length
      · rw [if_pos far]
        exact full found far
      · rw [if_neg far]
        by_cases large : 2 ^ 29 ≤ blob.length
        · rw [compressed_of_le large]
          exact long large
        · obtain ⟨length, written⟩ := exists_compressed (Nat.lt_of_not_le large)
          rw [written]
          exact new found (Nat.lt_of_not_le far) length (length_compressed_le written)

theorem add_within {reason : Error → Prop} {items : List Bytes} {b : BlobHeapBuilder} (within : b.Within items)
    {blob : Bytes} (member : blob ∈ items)
    (long : 2 ^ 29 ≤ blob.length → reason (.malformed (.compressedTooLarge blob.length)))
    (full : 2 ^ 32 < heapSpace blobSize items → reason (.malformed (.heapTooLarge .blobs))) :
    Attempt (Within items) reason (add blob b) := by
  have grown (absent : b.entries.lookup blob = none) {n : Nat} (small : n ≤ blobSize blob) :=
    within.add member (notMem_of_lookup absent) small b.data.length
  refine attempt_add within (fun absent _ length few => ?_) long fun absent far => full ?_
  · rw [Within, List.length_append, List.length_append, Nat.add_assoc]
    refine grown absent ?_
    unfold blobSize
    omega
  · have bound := (grown absent (Nat.le_refl _)).length_le
    have positive : 0 < blobSize blob := Nat.succ_pos _
    omega

end BlobHeapBuilder

namespace GuidHeapBuilder

/-- Identifiers have a fixed size, so that it is enough to count them. -/
structure Within (items : List Guid) (b : GuidHeapBuilder) : Prop where
  distinct : b.guids.Nodup
  given : b.guids ⊆ items

theorem within_empty (items : List Guid) : Within items {} := ⟨List.nodup_nil, List.nil_subset _⟩

theorem Within.length_le {items : List Guid} {b : GuidHeapBuilder} (within : b.Within items) : b.guids.length ≤ items.dedup.length :=
  (within.distinct.subperm fun _ member => List.mem_dedup.mpr (within.given member)).length_le

theorem add_within {reason : Error → Prop} {items : List Guid} {b : GuidHeapBuilder} (within : b.Within items)
    {guid : Guid} (member : guid ∈ items) : Attempt (Within items) reason (add guid b) := by
  unfold add
  rw [bind_of_ok (show (get : EStateM Error _ _) b = .ok b b from rfl)]
  by_cases isNil : guid.isNil = true
  · rw [if_pos isNil]
    exact within
  · rw [if_neg isNil]
    cases found : b.guids.idxOf? guid with
    | some position => exact within
    | none =>
      refine ⟨?_, ?_⟩
      · apply within.distinct.append (List.nodup_singleton guid)
        rw [List.disjoint_singleton]
        exact List.idxOf?_eq_none_iff.mp found
      · exact List.append_subset.mpr ⟨within.given, List.cons_subset.mpr ⟨member, List.nil_subset _⟩⟩

end GuidHeapBuilder

end CilWeaver
