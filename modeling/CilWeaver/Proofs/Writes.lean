import CilWeaver.Image.SymbolStreams
import CilWeaver.Proofs.Heaps

/-!
Triples for writers. A draft only grows, so what a writer has put into it holds in every later draft,
and facts about a sequence of writes can all be stated about the draft that it ends in.
-/

namespace CilWeaver

/-- States of a writer: what makes one sound, and when one is a later state of another. -/
class Draft (σ : Type) where
  Sound : σ → Prop
  Grows : σ → σ → Prop
  refl : ∀ d, Grows d d
  trans : ∀ {a b c}, Grows a b → Grows b c → Grows a c

open Draft

variable {σ α β : Type} [Draft σ]

/-- From a sound draft the writer gets to a sound, later one, and `post` holds from there on. -/
def Writes (w : EStateM Error σ α) (post : α → σ → Prop) : Prop :=
  ∀ d a d', Sound d → w d = .ok a d' →
    Sound d' ∧ Grows d d' ∧ ∀ final, Grows d' final → post a final

namespace Writes

open Step

theorem pure (a : α) : Writes (Pure.pure a : EStateM Error σ α) fun b _ => b = a := by
  intro d b d' sound run
  obtain ⟨rfl, rfl⟩ := pure_eq_ok.mp run
  exact ⟨sound, refl d, fun _ _ => rfl⟩

theorem throw {e : Error} {post : α → σ → Prop} :
    Writes (MonadExcept.throw e : EStateM Error σ α) post := by
  intro d b d' sound run
  exact absurd run throw_ne_ok

theorem bind {x : EStateM Error σ α} {f : α → EStateM Error σ β} {p : α → σ → Prop}
    {q : α → β → σ → Prop} (first : Writes x p) (second : ∀ a, Writes (f a) (q a)) :
    Writes (x >>= f) fun b d => ∃ a, p a d ∧ q a b d := by
  intro d b d'' sound run
  obtain ⟨a, d', runFirst, runSecond⟩ := bind_eq_ok.mp run
  obtain ⟨sound', grows, holds⟩ := first d a d' sound runFirst
  obtain ⟨sound'', grows', holds'⟩ := second a d' b d'' sound' runSecond
  refine ⟨sound'', trans grows grows', fun final later => ⟨a, ?_, holds' final later⟩⟩
  exact holds final (trans grows' later)

theorem mono {w : EStateM Error σ α} {p q : α → σ → Prop} (writes : Writes w p)
    (weaker : ∀ a d, p a d → q a d) : Writes w q := by
  intro d a d' sound run
  obtain ⟨sound', grows, holds⟩ := writes d a d' sound run
  exact ⟨sound', grows, fun final later => weaker a final (holds final later)⟩

/-- The last step of a writer makes a value of what the steps before have answered. -/
theorem map {x : EStateM Error σ α} {p : α → σ → Prop} (writes : Writes x p) (f : α → β) :
    Writes (x >>= fun a => Pure.pure (f a)) fun b d => ∃ a, p a d ∧ b = f a :=
  writes.bind fun a => pure (f a)

theorem ite {c : Prop} [Decidable c] {x y : EStateM Error σ α} {post : α → σ → Prop}
    (yes : c → Writes x post) (no : ¬ c → Writes y post) : Writes (if c then x else y) post := by
  by_cases h : c
  · rw [if_pos h]
    exact yes h
  · rw [if_neg h]
    exact no h

/-- One step for each item of a list. -/
theorem mapM {f : α → EStateM Error σ β} {post : α → β → σ → Prop} {items : List α}
    (each : ∀ a ∈ items, Writes (f a) (post a)) :
    Writes (items.mapM f) fun results d => List.Forall₂ (fun a b => post a b d) items results := by
  induction items with
  | nil =>
    rw [List.mapM_nil]
    exact (pure []).mono fun results d same => same ▸ .nil
  | cons a items ih =>
    rw [List.mapM_cons]
    have first := each a List.mem_cons_self
    have others := ih fun b member => each b (List.mem_cons_of_mem a member)
    refine (first.bind fun b => others.map fun bs => b :: bs).mono ?_
    rintro results d ⟨b, hb, bs, hbs, rfl⟩
    exact .cons hb hbs

end Writes

instance : Draft BlobHeapBuilder where
  Sound b := b.Sound
  Grows a b := a.data <+: b.data
  refl _ := List.prefix_refl _
  trans := List.IsPrefix.trans

theorem BlobHeapBuilder.writes_add (value : Bytes) :
    Writes (BlobHeapBuilder.add value) fun index b => BlobHeap.Holds b.data index value := by
  intro b index b' sound run
  obtain ⟨sound', grows, holds⟩ := BlobHeapBuilder.add_ok sound run
  exact ⟨sound', grows, fun _ later => holds.grow later⟩

namespace ModuleDraft

structure Sound (d : ModuleDraft) : Prop where
  strings : d.strings.Sound
  userStrings : d.userStrings.Sound
  blobs : d.blobs.Sound
  il : zeros ModuleImage.reservedCode <+: d.il

structure Grows (a b : ModuleDraft) : Prop where
  strings : a.strings.data <+: b.strings.data
  userStrings : a.userStrings.data <+: b.userStrings.data
  guids : a.guids.guids <+: b.guids.guids
  blobs : a.blobs.data <+: b.blobs.data
  il : a.il <+: b.il

theorem Grows.refl (d : ModuleDraft) : Grows d d :=
  ⟨List.prefix_refl _, List.prefix_refl _, List.prefix_refl _, List.prefix_refl _, List.prefix_refl _⟩

theorem Grows.trans {a b c : ModuleDraft} (first : Grows a b) (second : Grows b c) : Grows a c :=
  ⟨first.strings.trans second.strings, first.userStrings.trans second.userStrings,
    first.guids.trans second.guids, first.blobs.trans second.blobs, first.il.trans second.il⟩

instance : Draft ModuleDraft := ⟨Sound, Grows, Grows.refl, Grows.trans⟩

theorem sound_empty : Sound {} :=
  ⟨StringHeapBuilder.sound_empty, UserStringHeapBuilder.sound_empty, BlobHeapBuilder.sound_empty,
    List.prefix_refl _⟩

/-- An identifier is at an index of the heap of identifiers. -/
def HasString (d : ModuleDraft) (index : Nat) (text : String) : Prop :=
  StringHeap.Holds d.strings.data index text

def HasLiteral (d : ModuleDraft) (index : Nat) (text : String) : Prop :=
  UserStringHeap.Holds d.userStrings.data index text

def HasBlob (d : ModuleDraft) (index : Nat) (blob : Bytes) : Prop :=
  BlobHeap.Holds d.blobs.data index blob

def HasGuid (d : ModuleDraft) (index : Nat) (guid : Guid) : Prop :=
  GuidHeap.Holds d.guids.guids index guid

end ModuleDraft

namespace ModuleWriter

open ModuleDraft

/-- An action on a part of the draft is one on the part, and nothing else changes. -/
theorem onPart_eq_ok {τ : Type} {part : ModuleDraft → τ} {replace : τ → ModuleDraft → ModuleDraft}
    {action : EStateM Error τ α} {d d' : ModuleDraft} {a : α} (h : onPart part replace action d = .ok a d') :
    ∃ s, action (part d) = .ok a s ∧ d' = replace s d := by
  unfold onPart at h
  cases run : action (part d) with
  | ok b s =>
    rw [run] at h
    cases h
    exact ⟨s, rfl, rfl⟩
  | error e s =>
    rw [run] at h
    cases h

theorem writes_addString (text : String) :
    Writes (addString text) fun index d => d.HasString index text := by
  intro d index d' sound run
  obtain ⟨strings, added, rfl⟩ := onPart_eq_ok run
  obtain ⟨sound', grows, holds⟩ := StringHeapBuilder.add_ok sound.strings added
  exact ⟨{ sound with strings := sound' }, { Grows.refl d with strings := grows },
    fun _ later => holds.grow later.strings⟩

theorem writes_addLiteral (text : String) :
    Writes (addLiteral text) fun index d => d.HasLiteral index text := by
  intro d index d' sound run
  obtain ⟨userStrings, added, rfl⟩ := onPart_eq_ok run
  obtain ⟨sound', grows, -, holds⟩ := UserStringHeapBuilder.add_ok sound.userStrings added
  exact ⟨{ sound with userStrings := sound' }, { Grows.refl d with userStrings := grows },
    fun _ later => holds.grow later.userStrings⟩

theorem writes_addBlob (blob : Bytes) : Writes (addBlob blob) fun index d => d.HasBlob index blob := by
  intro d index d' sound run
  obtain ⟨blobs, added, rfl⟩ := onPart_eq_ok run
  obtain ⟨sound', grows, holds⟩ := BlobHeapBuilder.add_ok sound.blobs added
  exact ⟨{ sound with blobs := sound' }, { Grows.refl d with blobs := grows },
    fun _ later => holds.grow later.blobs⟩

theorem writes_addGuid (guid : Guid) : Writes (addGuid guid) fun index d => d.HasGuid index guid := by
  intro d index d' sound run
  obtain ⟨guids, added, rfl⟩ := onPart_eq_ok run
  obtain ⟨grows, holds⟩ := GuidHeapBuilder.add_ok added
  exact ⟨{ sound with }, { Grows.refl d with guids := grows }, fun _ later => holds.grow later.guids⟩

/-- A check that lets the writer go on has found no fault. -/
theorem writes_check (context : String) (result : Except EmissionFault Unit) :
    Writes (check context result) fun _ _ => result = .ok () := by
  unfold check
  split
  · exact (Writes.pure ()).mono fun _ _ _ => rfl
  · exact Writes.throw

theorem writes_coded (kind : CodedKind) (context : String) (token : Token) :
    Writes (coded kind context token) fun index _ => CodedIndex.ofToken kind token = .ok index := by
  unfold coded
  split
  · rename_i index found
    exact (Writes.pure index).mono fun a _ same => same ▸ found
  · exact Writes.throw

end ModuleWriter

namespace SymbolDraft

structure Sound (d : SymbolDraft) : Prop where
  blobs : d.blobs.Sound

structure Grows (a b : SymbolDraft) : Prop where
  guids : a.guids.guids <+: b.guids.guids
  blobs : a.blobs.data <+: b.blobs.data

theorem Grows.refl (d : SymbolDraft) : Grows d d := ⟨List.prefix_refl _, List.prefix_refl _⟩

theorem Grows.trans {a b c : SymbolDraft} (first : Grows a b) (second : Grows b c) : Grows a c :=
  ⟨first.guids.trans second.guids, first.blobs.trans second.blobs⟩

instance : Draft SymbolDraft := ⟨Sound, Grows, Grows.refl, Grows.trans⟩

theorem sound_empty : Sound {} := ⟨BlobHeapBuilder.sound_empty⟩

def HasBlob (d : SymbolDraft) (index : Nat) (blob : Bytes) : Prop :=
  BlobHeap.Holds d.blobs.data index blob

def HasGuid (d : SymbolDraft) (index : Nat) (guid : Guid) : Prop :=
  GuidHeap.Holds d.guids.guids index guid

end SymbolDraft

namespace SymbolWriter

open SymbolDraft

/-- What is written to the blobs holds in the draft. -/
theorem writes_onBlobs {action : EStateM Error BlobHeapBuilder α} {post : α → BlobHeapBuilder → Prop}
    (writes : Writes action post) : Writes (onBlobs action) fun a d => post a d.blobs := by
  intro d a d' sound run
  unfold onBlobs at run
  cases added : action d.blobs with
  | error e blobs =>
    rw [added] at run
    cases run
  | ok b blobs =>
    rw [added] at run
    cases run
    obtain ⟨sound', grows, holds⟩ := writes _ _ _ sound.blobs added
    exact ⟨⟨sound'⟩, ⟨List.prefix_refl _, grows⟩, fun final later => holds _ later.blobs⟩

theorem writes_addBlob (blob : Bytes) : Writes (addBlob blob) fun index d => d.HasBlob index blob :=
  writes_onBlobs (BlobHeapBuilder.writes_add blob)

theorem writes_addGuid (guid : Guid) : Writes (addGuid guid) fun index d => d.HasGuid index guid := by
  intro d index d' sound run
  unfold addGuid at run
  cases added : GuidHeapBuilder.add guid d.guids with
  | error e guids =>
    rw [added] at run
    cases run
  | ok a guids =>
    rw [added] at run
    cases run
    obtain ⟨grows, holds⟩ := GuidHeapBuilder.add_ok added
    exact ⟨⟨sound.blobs⟩, ⟨grows, List.prefix_refl _⟩, fun _ later => holds.grow later.guids⟩

end SymbolWriter

end CilWeaver
