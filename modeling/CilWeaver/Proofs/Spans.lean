import CilWeaver.Proofs.Answers
import CilWeaver.Proofs.Compressed
import CilWeaver.Proofs.Reads

/-!
What a reader consumes of any data. Such facts compose along the steps of a reader, as those do about data
that was written for it. Of a compressed integer, a reader consumes a number in one of the widths that hold it.
-/

namespace CilWeaver

open Step

/-- The parts of a list stand one behind the other. -/
inductive Sequence {α : Type} (part : Bytes → α → Prop) : Bytes → List α → Prop
  | nil : Sequence part [] []
  | cons {front back a as} : part front a → Sequence part back as → Sequence part (front ++ back) (a :: as)

theorem Sequence.map {α β : Type} {p : Bytes → α → Prop} {q : Bytes → β → Prop} {f : α → β} {bytes : Bytes} {as : List α}
    (h : Sequence p bytes as) (each : ∀ bytes a, p bytes a → q bytes (f a)) : Sequence q bytes (as.map f) := by
  induction h with
  | nil => exact .nil
  | cons first others ih => exact .cons (each _ _ first) ih

theorem Sequence.eq_flatMap {α : Type} {write : α → Bytes} {bytes : Bytes} {as : List α}
    (h : Sequence (fun bytes a => bytes = write a) bytes as) : bytes = as.flatMap write := by
  induction h with
  | nil => rfl
  | cons first others ih => rw [List.flatMap_cons, first, ih]

namespace Reader

variable {α β : Type}

/-- `p` holds of where the reader starts, which bytes it consumes and what it answers. -/
def Spans (r : Reader α) (p : Nat → Bytes → α → Prop) : Prop :=
  ∀ c a c', r c = .ok a c' → ∃ taken, c.rest = taken ++ c'.rest ∧ c'.position = c.position + taken.length ∧
    p c.position taken a

namespace Spans

theorem pure (a : α) : Spans (Pure.pure a) fun _ taken b => taken = [] ∧ b = a := by
  intro c b c' run
  obtain ⟨rfl, rfl⟩ := pure_eq_ok.mp run
  exact ⟨[], rfl, rfl, rfl, rfl⟩

theorem throw (e : Error) (p : Nat → Bytes → α → Prop) : Spans (MonadExcept.throw e) p := by
  intro c a c' run
  exact absurd run throw_ne_ok

theorem mono {r : Reader α} {p q : Nat → Bytes → α → Prop} (h : r.Spans p)
    (weaker : ∀ start taken a, p start taken a → q start taken a) : r.Spans q := by
  intro c a c' run
  obtain ⟨taken, rest, position, holds⟩ := h c a c' run
  exact ⟨taken, rest, position, weaker _ _ _ holds⟩

theorem bind {r : Reader α} {f : α → Reader β} {p : Nat → Bytes → α → Prop} {q : α → Nat → Bytes → β → Prop}
    (first : r.Spans p) (second : ∀ a, (f a).Spans (q a)) :
    Spans (r >>= f) fun start taken b => ∃ a front back,
      taken = front ++ back ∧ p start front a ∧ q a (start + front.length) back b := by
  intro c b c'' run
  obtain ⟨a, c', one, two⟩ := bind_eq_ok.mp run
  obtain ⟨front, rest, position, holds⟩ := first c a c' one
  obtain ⟨back, rest', position', holds'⟩ := second a c' b c'' two
  rw [position] at holds'
  exact ⟨front ++ back, by rw [rest, rest', List.append_assoc], by rw [List.length_append]; omega, a, front, back, rfl,
    holds, holds'⟩

theorem position : Spans Reader.position fun start taken a => taken = [] ∧ a = start := by
  intro c a c' run
  cases run
  exact ⟨[], rfl, rfl, rfl, rfl⟩

theorem remaining : Spans Reader.remaining fun _ taken _ => taken = [] := by
  intro c a c' run
  cases run
  exact ⟨[], rfl, rfl, rfl⟩

theorem byte : Spans Reader.byte fun _ taken b => taken = [b] := by
  intro c a c' run
  obtain ⟨start, rest⟩ := c
  cases rest with
  | nil => cases run
  | cons b rest =>
    cases run
    exact ⟨[a], rfl, rfl, rfl⟩

theorem take (count : Nat) : Spans (Reader.take count) fun _ taken bytes => taken = bytes ∧ bytes.length = count := by
  intro c a c' run
  unfold Reader.take at run
  by_cases enough : (c.rest.take count).length = count
  · simp only [enough, ↓reduceIte] at run
    cases run
    exact ⟨c.rest.take count, (List.take_append_drop count c.rest).symm, by rw [enough], rfl, enough⟩
  · simp only [enough, ↓reduceIte] at run
    cases run

theorem map {f : α → β} {r : Reader α} {p : Nat → Bytes → α → Prop} (h : r.Spans p) :
    Spans (do return f (← r)) fun start taken b => ∃ a, p start taken a ∧ b = f a := by
  apply (h.bind fun a => Spans.pure (f a)).mono
  rintro start taken b ⟨a, front, back, rfl, holds, rfl, rfl⟩
  exact ⟨a, (List.append_nil front).symm ▸ holds, rfl⟩

theorem u16 : Spans Reader.u16 fun _ taken n => taken = u16Bytes n := by
  apply (map (take 2)).mono
  rintro start taken n ⟨_, ⟨rfl, length⟩, rfl⟩
  have small := leNat_lt taken
  have own := leBytes_leNat taken
  rw [length] at small own
  rw [u16Bytes, UInt16.toNat_ofNat', Nat.mod_eq_of_lt (show leNat taken < 2 ^ 16 from small), own]

theorem u32 : Spans Reader.u32 fun _ taken n => taken = u32Bytes n := by
  apply (map (take 4)).mono
  rintro start taken n ⟨_, ⟨rfl, length⟩, rfl⟩
  have small := leNat_lt taken
  have own := leBytes_leNat taken
  rw [length] at small own
  rw [u32Bytes, UInt32.toNat_ofNat', Nat.mod_eq_of_lt (show leNat taken < 2 ^ 32 from small), own]

theorem u64 : Spans Reader.u64 fun _ taken n => taken = u64Bytes n := by
  apply (map (take 8)).mono
  rintro start taken n ⟨_, ⟨rfl, length⟩, rfl⟩
  have small := leNat_lt taken
  have own := leBytes_leNat taken
  rw [length] at small own
  rw [u64Bytes, UInt64.toNat_ofNat', Nat.mod_eq_of_lt (show leNat taken < 2 ^ 64 from small), own]

theorem ofResult {result : Result α} : Spans (Reader.ofResult result) fun _ taken _ => taken = [] := by
  cases result with
  | ok a =>
    apply (Spans.pure a).mono
    rintro start taken b ⟨none, -⟩
    exact none
  | error e => exact Spans.throw e _

theorem mapError {f : Error → Error} {r : Reader α} {p : Nat → Bytes → α → Prop} (h : r.Spans p) :
    Spans (r.mapError f) p := by
  intro c a c' run
  unfold Reader.mapError at run
  cases own : r c with
  | ok b c'' =>
    simp only [own] at run
    cases run
    exact h c _ _ own
  | error e c'' =>
    simp only [own] at run
    cases run

theorem ite {condition : Prop} [Decidable condition] {r r' : Reader α} {p : Nat → Bytes → α → Prop}
    (first : condition → r.Spans p) (second : ¬ condition → r'.Spans p) : Spans (if condition then r else r') p := by
  by_cases holds : condition
  · rw [if_pos holds]
    exact first holds
  · rw [if_neg holds]
    exact second holds

theorem malformed_bind (defect : Defect) {f : α → Reader β} (p : Nat → Bytes → β → Prop) :
    Spans (Reader.malformed defect >>= f) p := by
  intro c b c'' run
  obtain ⟨a, c', refused, -⟩ := bind_eq_ok.mp run
  exact absurd refused throw_ne_ok

end Spans

theorem parse_eq_ok {r : Reader α} {data : Bytes} {a : α} : r.parse data = .ok a ↔ ∃ c, r ⟨0, data⟩ = .ok a c := by
  unfold Reader.parse EStateM.run Cursor.start
  cases r ⟨0, data⟩ with
  | ok b c =>
    constructor
    · intro h
      cases h
      exact ⟨c, rfl⟩
    · rintro ⟨c', h⟩
      cases h
      rfl
  | error e c =>
    constructor
    · intro h
      cases h
    · rintro ⟨c', h⟩
      cases h

/-- `p` holds of the bytes the reader consumes, wherever they start, and of what it answers. -/
def Consumes (r : Reader α) (p : Bytes → α → Prop) : Prop := r.Spans fun _ => p

namespace Consumes

variable {r : Reader α} {p : Bytes → α → Prop} {q : Bytes → β → Prop}

theorem mono {p' : Bytes → α → Prop} (h : r.Consumes p) (weaker : ∀ taken a, p taken a → p' taken a) : r.Consumes p' :=
  Spans.mono h fun _ => weaker

theorem pure {a : α} (holds : p [] a) : Consumes (Pure.pure a) p := by
  apply (Spans.pure a).mono
  intro start taken b same
  rw [same.1, same.2]
  exact holds

theorem bind {f : α → Reader β} (first : r.Consumes p)
    (second : ∀ front a, p front a → (f a).Consumes fun back b => q (front ++ back) b) : (r >>= f).Consumes q := by
  intro c b c'' run
  rcases bind_eq_ok.mp run with ⟨a, c', one, two⟩
  rcases first c a c' one with ⟨front, rest, position, holds⟩
  rcases second front a holds c' b c'' two with ⟨back, rest', position', holds'⟩
  exact ⟨front ++ back, by rw [rest, rest', List.append_assoc], by rw [List.length_append]; omega, holds'⟩

/-- A first step that consumes nothing. -/
theorem bind_nil {f : α → Reader β} (first : r.Consumes fun taken _ => taken = []) (second : ∀ a, (f a).Consumes q) :
    (r >>= f).Consumes q := by
  apply first.bind
  intro front a none
  rw [none]
  exact second a

theorem map {f : α → β} (h : r.Consumes fun taken a => q taken (f a)) : Consumes (do return f (← r)) q := by
  apply h.bind
  intro front a holds
  apply pure
  rw [List.append_nil]
  exact holds

theorem map' {f : α → β} (h : r.Consumes fun taken a => q taken (f a)) : Consumes (f <$> r) q := by
  rw [map_eq_pure_bind]
  exact h.map

theorem ite {condition : Prop} [Decidable condition] {r' : Reader α} (first : condition → r.Consumes p)
    (second : ¬ condition → r'.Consumes p) : Consumes (if condition then r else r') p :=
  Spans.ite first second

theorem ite_eq {τ : Type} [DecidableEq τ] {a b : τ} {r' : Reader α} (first : a = b → r.Consumes p) (second : r'.Consumes p) :
    Consumes (if a == b then r else r') p :=
  ite (fun same => first (beq_iff_eq.mp same)) fun _ => second

theorem malformed (defect : Defect) : Consumes (Reader.malformed defect) p := Spans.throw _ _

theorem malformed_bind (defect : Defect) {f : α → Reader β} : Consumes (Reader.malformed defect >>= f) q :=
  Spans.malformed_bind defect _

/-- A check in front of the other steps. -/
theorem check {condition : Prop} [Decidable condition] {defect : Defect} {f : Unit → Reader α}
    (others : ¬ condition → r.Consumes p) : Consumes (if condition then Reader.malformed defect >>= f else r) p :=
  ite (fun _ => malformed_bind defect) others

theorem byte : Consumes Reader.byte fun taken b => taken = [b] := Spans.byte

theorem skip (count : Nat) : Consumes (Reader.skip count) fun taken _ => taken.length = count := by
  apply map
  apply (Spans.take count).mono
  rintro start taken bytes ⟨rfl, length⟩
  exact length

theorem remaining : Consumes Reader.remaining fun taken _ => taken = [] := Spans.remaining

theorem hasMore : Consumes Reader.hasMore fun taken _ => taken = [] := by
  intro c a c' run
  cases run
  exact ⟨[], rfl, rfl, rfl⟩

theorem timesFrom (h : r.Consumes p) (done : List α) (count : Nat) : Consumes (Reader.timesFrom r done count) fun taken found =>
    ∃ own, found = done.reverse ++ own ∧ own.length = count ∧ Sequence p taken own := by
  induction count generalizing done with
  | zero => exact pure ⟨[], (List.append_nil _).symm, rfl, .nil⟩
  | succ count ih =>
    apply h.bind
    intro front a first
    apply (ih (a :: done)).mono
    rintro back found ⟨own, rfl, length, others⟩
    exact ⟨a :: own, by simp, by rw [List.length_cons, length], .cons first others⟩

theorem times (h : r.Consumes p) (count : Nat) :
    Consumes (Reader.times count r) fun taken found => found.length = count ∧ Sequence p taken found := by
  apply (h.timesFrom [] count).mono
  rintro taken found ⟨own, rfl, length, all⟩
  exact ⟨length, all⟩

/-- The byte that lies ahead is the first one that the next steps consume. -/
theorem peek_bind {f : UInt8 → Reader β}
    (second : ∀ b, (f b).Consumes fun back a => (back ≠ [] → back.head? = some b) → q back a) :
    (Reader.peek >>= f).Consumes q := by
  intro c a c'' run
  rcases bind_eq_ok.mp run with ⟨b, c', one, two⟩
  rcases c with ⟨start, rest⟩
  cases rest with
  | nil => cases one
  | cons head tail =>
    cases one
    rcases second _ _ a c'' two with ⟨back, rest, position, holds⟩
    refine ⟨back, rest, position, holds fun nonempty => ?_⟩
    cases back with
    | nil => exact absurd rfl nonempty
    | cons first others =>
      rw [List.cons_append] at rest
      rw [List.head?_cons, (List.cons.inj rest).1]

theorem parse (h : r.Consumes p) {data : Bytes} {a : α} (parsed : r.parse data = .ok a) :
    ∃ taken rest, data = taken ++ rest ∧ p taken a := by
  rcases parse_eq_ok.mp parsed with ⟨c, run⟩
  rcases h _ _ _ run with ⟨taken, split, -, holds⟩
  exact ⟨taken, c.rest, split, holds⟩

theorem of_reads (h : r.Consumes p) {position : Nat} {bytes : Bytes} {a : α} (reads : Reads r position bytes a) : p bytes a := by
  rcases h _ _ _ (reads []) with ⟨taken, split, -, holds⟩
  rw [List.append_nil, List.append_nil] at split
  change bytes = taken at split
  rw [split]
  exact holds

end Consumes

theorem Spans.times {r : Reader α} {write : α → Bytes} (h : r.Spans fun _ taken a => taken = write a) (count : Nat) :
    Spans (Reader.times count r) fun _ taken found => found.length = count ∧ taken = found.flatMap write := by
  apply (Consumes.times h count).mono
  rintro taken found ⟨length, all⟩
  exact ⟨length, all.eq_flatMap⟩

/-- What is read part by part is read as a whole. -/
theorem readsAll_of_sequence {r : Reader β} {p : Bytes → α → Prop} {f : α → β} {bytes : Bytes} {as : List α}
    (h : Sequence p bytes as) (each : ∀ bytes a, p bytes a → ∀ position, Reads r position bytes (f a)) (position : Nat) :
    ReadsAll r position bytes (as.map f) := by
  induction h generalizing position with
  | nil => exact .nil position
  | cons first others ih => exact .cons (each _ _ first position) (ih _)

theorem reads_peek_bind {f : UInt8 → Reader β} {position : Nat} {b : UInt8} {bytes : Bytes} {c : β}
    (second : Reads (f b) position (b :: bytes) c) : Reads (peek >>= f) position (b :: bytes) c := by
  intro rest
  rw [List.cons_append, bind_of_ok (show peek ⟨position, b :: (bytes ++ rest)⟩ = .ok b ⟨position, b :: (bytes ++ rest)⟩ from rfl)]
  exact second rest

/-! Compressed integers -/

open Compressed

theorem consumes_payload : Consumes payload fun taken found => found.2 < 2 ^ found.1.bits ∧ taken = found.1.write found.2 := by
  have whole (b : UInt8) (n : Nat) (same : n % 256 = b.toNat) : UInt8.ofNat n = b := by
    apply UInt8.toNat_inj.mp
    rw [UInt8.toNat_ofNat', same]
  unfold payload
  apply Consumes.byte.bind
  intro taken first one
  subst one
  have size := first.toNat_lt
  apply Consumes.ite
  · intro low
    rw [UInt8.lt_iff_toNat_lt] at low
    change first.toNat < 128 at low
    apply Consumes.pure
    constructor
    · exact low
    · simp only [Width.write, UInt8.ofNat_toNat, List.append_nil]
  · intro high
    rw [UInt8.lt_iff_toNat_lt] at high
    change ¬ first.toNat < 128 at high
    apply Consumes.ite
    · intro low
      rw [UInt8.lt_iff_toNat_lt] at low
      change first.toNat < 192 at low
      apply Consumes.byte.bind
      intro taken second one
      subst one
      have := second.toNat_lt
      apply Consumes.pure
      constructor
      · simp only [Width.bits]
        omega
      · simp only [Width.write, List.cons_append, List.nil_append]
        rw [whole first _ (by omega), whole second _ (by omega)]
    · intro higher
      rw [UInt8.lt_iff_toNat_lt] at higher
      change ¬ first.toNat < 192 at higher
      apply Consumes.ite
      · intro low
        rw [UInt8.lt_iff_toNat_lt] at low
        change first.toNat < 224 at low
        apply Consumes.byte.bind
        intro taken b one
        subst one
        apply Consumes.byte.bind
        intro taken c one
        subst one
        apply Consumes.byte.bind
        intro taken d one
        subst one
        have := b.toNat_lt
        have := c.toNat_lt
        have := d.toNat_lt
        apply Consumes.pure
        constructor
        · simp only [Width.bits]
          omega
        · simp only [Width.write, List.cons_append, List.nil_append]
          rw [whole first _ (by omega), whole b _ (by omega), whole c _ (by omega), whole d _ (by omega)]
      · intro
        exact Consumes.malformed _

theorem consumes_compressed : Consumes compressed Holds := by
  apply Consumes.map
  apply consumes_payload.mono
  intro taken found held
  exact ⟨found.1, held⟩

theorem consumes_compressedInt : Consumes compressedInt HoldsInt := by
  apply Consumes.bind consumes_payload
  intro taken found held
  apply Consumes.pure
  rw [List.append_nil]
  exact ⟨found.1, found.2, held.1, rfl, held.2⟩

theorem Consumes.answers {α : Type} {r : Reader α} {p : Bytes → α → Prop} {q : α → Prop} (h : r.Consumes p)
    (weaker : ∀ taken a, p taken a → q a) : r.Answers q := by
  intro c a c' run
  rcases h c a c' run with ⟨taken, -, -, holds⟩
  exact weaker taken a holds

/-- A number that was read in some width can be written in the narrowest one. -/
theorem answers_compressed : Answers compressed fun n => n < 2 ^ 29 :=
  consumes_compressed.answers fun _ _ held => held.lt

/-! Reading until the end of the data -/

section

variable {r : Reader α}

theorem mapError_eq_ok {f : Error → Error} {a : α} {c c' : Cursor} : r.mapError f c = .ok a c' ↔ r c = .ok a c' := by
  unfold mapError
  cases r c with
  | ok b c₁ => exact Iff.rfl
  | error e c₁ => exact ⟨nofun, nofun⟩

/-- Reading again and again until no data is left. Each answer stands behind the place that it was read from. -/
inductive Repeats (r : Reader α) : Cursor → List (Nat × α) → Prop where
  | ended (position : Nat) : Repeats r ⟨position, []⟩ []
  | step {c c' : Cursor} {a : α} {items : List (Nat × α)} (more : c.rest ≠ []) (read : r c = .ok a c')
      (others : Repeats r c' items) : Repeats r c ((c.position, a) :: items)

theorem Repeats.unique {c : Cursor} {items items' : List (Nat × α)} (first : Repeats r c items)
    (second : Repeats r c items') : items = items' := by
  induction first generalizing items' with
  | ended position =>
    cases second with
    | ended => rfl
    | step more => exact absurd rfl more
  | step more read _ ih =>
    cases second with
    | ended => exact absurd rfl more
    | step more' read' others' =>
      rw [read] at read'
      cases read'
      rw [ih others']

theorem repeats_nil {position : Nat} {items : List (Nat × α)} : Repeats r ⟨position, []⟩ items ↔ items = [] := by
  constructor
  · rintro (_ | ⟨more, -, -⟩)
    · rfl
    · exact absurd rfl more
  · rintro rfl
    exact .ended position

/-- The loop of a reader that notes its place is the repetition of what it reads, if each answer takes some data. -/
theorem untilEndFrom_iff_repeats {noting : Reader (Nat × α)}
    (notes : ∀ c item c', noting c = .ok item c' ↔ item.1 = c.position ∧ r c = .ok item.2 c')
    (shortens : ∀ c a c', r c = .ok a c' → c'.rest.length < c.rest.length) {done found : List (Nat × α)} {fuel : Nat}
    {c : Cursor} (enough : c.rest.length ≤ fuel) :
    (∃ c', untilEndFrom noting done fuel c = .ok found c') ↔
      ∃ items, found = done.reverse ++ items ∧ Repeats r c items := by
  have stopped : ∀ (done : List (Nat × α)) (position : Nat),
      (∃ c', (pure done.reverse : Reader _) ⟨position, []⟩ = .ok found c') ↔
      ∃ items, found = done.reverse ++ items ∧ Repeats r ⟨position, []⟩ items := by
    intro done position
    simp only [pure_eq_ok, exists_and_left, exists_eq', and_true, repeats_nil, exists_eq_right, List.append_nil]
    exact eq_comm
  induction fuel generalizing done c with
  | zero =>
    obtain ⟨position, rest⟩ := c
    obtain rfl := List.eq_nil_of_length_eq_zero (Nat.le_zero.mp enough)
    exact stopped done position
  | succ fuel ih =>
    obtain ⟨position, rest⟩ := c
    cases rest with
    | nil => exact stopped done position
    | cons b rest =>
      have more : untilEndFrom noting done (fuel + 1) ⟨position, b :: rest⟩ =
          (noting >>= fun item => untilEndFrom noting (item :: done) fuel) ⟨position, b :: rest⟩ := rfl
      have fits : ∀ a c', r ⟨position, b :: rest⟩ = .ok a c' → c'.rest.length ≤ fuel := fun a c' read =>
        Nat.le_of_lt_succ (Nat.lt_of_lt_of_le (shortens _ a c' read) enough)
      rw [more]
      constructor
      · rintro ⟨c', run⟩
        obtain ⟨item, c₁, first, others⟩ := bind_eq_ok.mp run
        obtain ⟨place, read⟩ := (notes _ item c₁).mp first
        obtain ⟨items, rfl, repeats⟩ := (ih (fits _ c₁ read)).mp ⟨c', others⟩
        refine ⟨item :: items, by simp, ?_⟩
        rw [← Prod.eta item, place]
        exact .step (List.cons_ne_nil b rest) read repeats
      · rintro ⟨items, rfl, _ | ⟨-, read, others⟩⟩
        rename_i c₁ a items
        have behind : ∃ items', done.reverse ++ (position, a) :: items = ((position, a) :: done).reverse ++ items' ∧
            Repeats r c₁ items' := ⟨items, by simp, others⟩
        obtain ⟨c', run⟩ := (ih (fits a c₁ read)).mpr behind
        exact ⟨c', bind_eq_ok.mpr ⟨(position, a), c₁, (notes _ _ c₁).mpr ⟨rfl, read⟩, run⟩⟩

end

end Reader

end CilWeaver
