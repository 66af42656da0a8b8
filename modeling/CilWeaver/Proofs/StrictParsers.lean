import CilWeaver.Bytes.Column
import CilWeaver.Bytes.Compressed
import CilWeaver.Proofs.Steps

/-!
Reading with operations that may have no result. A slice, an index, a difference or a conversion out of range
has none, and neither has a loop that does not end. A strict reader has its data as a whole and a position in it,
and agrees with a reader if it has the result of the reader wherever it starts.
-/

namespace CilWeaver

/-- What a computation answers or fails with, if it has a result at all. -/
abbrev Partly (α : Type) := ExceptT Error Option α

namespace Partly

variable {α β : Type}

def of (y : Result α) : Partly α := ExceptT.mk (some y)

/-- Goes on with a value, if there is one. -/
def need (value? : Option α) : Partly α := ExceptT.mk (value?.map .ok)

def malformed (defect : Defect) : Partly α := throw (.malformed defect)

/-- The items from `start` up to `stop`. -/
def slice (items : List α) (start stop : Nat) : Option (List α) :=
  if start ≤ stop ∧ stop ≤ items.length then some ((items.drop start).take (stop - start)) else none

def minus (a b : Nat) : Option Nat := if b ≤ a then some (a - b) else none

/-- The number as a natural number of so many bits. -/
def narrow (bits : Nat) (n : Int) : Option Nat := if 0 ≤ n ∧ n < 2 ^ bits then some n.toNat else none

theorem slice_of_le {items : List α} {start stop : Nat} (ordered : start ≤ stop) (inside : stop ≤ items.length) :
    slice items start stop = some ((items.drop start).take (stop - start)) := if_pos ⟨ordered, inside⟩

theorem slice_length {items : List α} {start : Nat} (inside : start ≤ items.length) :
    slice items start items.length = some (items.drop start) := by
  rw [slice_of_le inside (Nat.le_refl _), List.take_of_length_le (by rw [List.length_drop])]

theorem minus_of_le {a b : Nat} (h : b ≤ a) : minus a b = some (a - b) := if_pos h

theorem narrow_of_lt {bits n : Nat} (h : n < 2 ^ bits) : narrow bits n = some n := by
  rw [narrow, if_pos ⟨Int.natCast_nonneg n, by exact_mod_cast h⟩, Int.toNat_natCast]

/-- The result as an answer or a failure; a missing result is a failure without an error. -/
def cases (x : Partly α) : Except (Option Error) α :=
  match x.run with
  | none => .error none
  | some (.ok a) => .ok a
  | some (.error e) => .error (some e)

def ofCases : Except (Option Error) α → Partly α
  | .ok a => return a
  | .error (some e) => throw e
  | .error none => need none

/-- Changes the answer or failure that there is. -/
def onResult (f : Result α → Result β) (x : Partly α) : Partly β := ExceptT.mk (x.run.map f)

/-- There is a result, and it is this one. -/
def Gives (x : Partly α) (y : Result α) : Prop := x.run = some y

namespace Gives

variable {x : Partly α} {y : Result α}

theorem of (y : Result α) : Gives (Partly.of y) y := rfl

theorem pure (a : α) : Gives (Pure.pure a) (.ok a) := rfl

theorem throw (e : Error) : Gives (MonadExcept.throw e : Partly α) (.error e) := rfl

theorem malformed (defect : Defect) : Gives (Partly.malformed defect : Partly α) (.error (.malformed defect)) := rfl

theorem cases {y : Result α} (gives : Gives x y) : x.cases = y.mapError some := by
  unfold Gives at gives
  unfold Partly.cases
  rw [gives]
  cases y <;> rfl

theorem onResult (gives : Gives x y) (f : Result α → Result β) : Gives (x.onResult f) (f y) := by
  unfold Gives at gives ⊢
  unfold Partly.onResult
  rw [ExceptT.run_mk, gives]
  rfl

theorem ofCases {c : Except (Option Error) α} (same : c = y.mapError some) : Gives (Partly.ofCases c) y := by
  subst same
  cases y with
  | ok a => exact pure a
  | error e => exact throw e

theorem bind {f : α → Partly β} {g : α → Result β} (first : Gives x y) (second : ∀ a, y = .ok a → Gives (f a) (g a)) :
    Gives (x >>= f) (y >>= g) := by
  unfold Gives at first ⊢
  rw [ExceptT.run_bind, first]
  cases y with
  | ok a => exact second a rfl
  | error e => rfl

theorem bind_ok {a : α} {f : α → Partly β} {z : Result β} (first : Gives x (.ok a)) (rest : Gives (f a) z) :
    Gives (x >>= f) z := by
  unfold Gives at first ⊢
  rw [ExceptT.run_bind, first]
  exact rest

theorem bind_error {e : Error} {f : α → Partly β} (first : Gives x (.error e)) : Gives (x >>= f) (.error e) := by
  unfold Gives at first ⊢
  rw [ExceptT.run_bind, first]
  rfl

theorem need {value? : Option α} {a : α} {f : α → Partly β} {y : Result β} (found : value? = some a)
    (rest : Gives (f a) y) : Gives (Partly.need value? >>= f) y := by
  subst found
  exact rest

theorem ite {condition : Prop} [Decidable condition] {x' : Partly α} {y' : Result α} (first : condition → Gives x y)
    (second : ¬ condition → Gives x' y') : Gives (if condition then x else x') (if condition then y else y') := by
  by_cases holds : condition
  · rw [if_pos holds, if_pos holds]
    exact first holds
  · rw [if_neg holds, if_neg holds]
    exact second holds

/-- A check that finds a defect. -/
theorem check {condition : Prop} [Decidable condition] {defect : Defect} {f : PUnit → Partly α} {g : PUnit → Result α}
    (others : ¬ condition → Gives x y) :
    Gives (if condition then Partly.malformed defect >>= f else x)
      (if condition then (.error (.malformed defect) : Result PUnit) >>= g else y) := ite (fun _ => rfl) others

theorem map {f : α → β} (gives : Gives x y) : Gives (f <$> x) (y.map f) := by
  unfold Gives at gives ⊢
  rw [ExceptT.run_map, gives]
  rfl

theorem mapM {f : α → Partly β} {g : α → Result β} {items : List α} (each : ∀ a ∈ items, Gives (f a) (g a)) :
    Gives (items.mapM f) (items.mapM g) := by
  induction items with
  | nil => exact rfl
  | cons a items ih =>
    rw [List.mapM_cons, List.mapM_cons]
    have others := ih fun b member => each b (List.mem_cons_of_mem a member)
    exact (each a List.mem_cons_self).bind fun b _ => others.bind fun bs _ => pure (b :: bs)

/-- Each item with its index, counted from `start` on. -/
theorem mapM_zipIdx {f : α × Nat → Partly β} {g : α → Result β} {items : List α} {start : Nat}
    (each : ∀ a i, items[i]? = some a → Gives (f (a, start + i)) (g a)) :
    Gives ((items.zipIdx start).mapM f) (items.mapM g) := by
  induction items generalizing start with
  | nil => exact rfl
  | cons a items ih =>
    rw [List.zipIdx_cons, List.mapM_cons, List.mapM_cons]
    have first : Gives (f (a, start)) (g a) := each a 0 rfl
    have others : Gives ((items.zipIdx (start + 1)).mapM f) (items.mapM g) := by
      refine ih fun b i found => ?_
      rw [Nat.add_assoc, Nat.add_comm 1 i]
      exact each b (i + 1) found
    exact first.bind fun b _ => others.bind fun bs _ => pure (b :: bs)

/-- Each index from `start` on, in place of the item that it is the index of. -/
theorem mapM_range {f : Nat → Partly β} {g : α × Nat → Result β} {items : List α} {start : Nat}
    (each : ∀ a i, items[i]? = some a → Gives (f (start + i)) (g (a, start + i))) :
    Gives ((List.range' start items.length).mapM f) ((items.zipIdx start).mapM g) := by
  induction items generalizing start with
  | nil => exact rfl
  | cons a items ih =>
    rw [List.length_cons, List.range'_succ, List.zipIdx_cons, List.mapM_cons, List.mapM_cons]
    have first : Gives (f start) (g (a, start)) := each a 0 rfl
    have others : Gives ((List.range' (start + 1) items.length).mapM f) ((items.zipIdx (start + 1)).mapM g) := by
      refine ih fun b i found => ?_
      rw [Nat.add_assoc, Nat.add_comm 1 i]
      exact each b (i + 1) found
    exact first.bind fun b _ => others.bind fun bs _ => pure (b :: bs)

theorem option_mapM {f : α → Partly β} {g : α → Result β} {item? : Option α} (each : ∀ a ∈ item?, Gives (f a) (g a)) :
    Gives (item?.mapM f) (item?.mapM g) := by
  cases item? with
  | none => exact rfl
  | some a => exact (each a rfl).bind fun b _ => pure (some b)

theorem forM {f : α → Partly PUnit} {g : α → Result PUnit} {items : List α} (each : ∀ a ∈ items, Gives (f a) (g a)) :
    Gives (items.forM f) (items.forM g) := by
  induction items with
  | nil => exact rfl
  | cons a items ih =>
    have others := ih fun b member => each b (List.mem_cons_of_mem a member)
    exact (each a List.mem_cons_self).bind fun _ _ => others

/-- Each item with its index, in place of its partner. -/
theorem forM_zipIdx {f : α × Nat → Partly PUnit} {g : α × β → Result PUnit} {as : List α} {bs : List β} {start : Nat}
    (full : as.length ≤ bs.length)
    (each : ∀ a b i, as[i]? = some a → bs[i]? = some b → Gives (f (a, start + i)) (g (a, b))) :
    Gives ((as.zipIdx start).forM f) ((as.zip bs).forM g) := by
  induction as generalizing bs start with
  | nil => exact rfl
  | cons a as ih =>
    cases bs with
    | nil => exact absurd full (Nat.not_succ_le_zero _)
    | cons b bs =>
      have first : Gives (f (a, start)) (g (a, b)) := each a b 0 rfl rfl
      have others : Gives ((as.zipIdx (start + 1)).forM f) ((as.zip bs).forM g) := by
        refine ih (Nat.le_of_succ_le_succ full) fun a b i left right => ?_
        rw [Nat.add_assoc, Nat.add_comm 1 i]
        exact each a b (i + 1) left right
      exact first.bind fun _ _ => others

end Gives

theorem ext_gives {x x' : Partly α} (same : ∀ y, Gives x y ↔ Gives x' y) : x = x' := by
  apply ExceptT.ext
  apply Option.ext
  exact same

theorem gives_bind_iff {x : Partly α} {f : α → Partly β} {y : Result β} :
    Gives (x >>= f) y ↔ (∃ a, Gives x (.ok a) ∧ Gives (f a) y) ∨ ∃ e, Gives x (.error e) ∧ y = .error e := by
  unfold Gives
  rw [ExceptT.run_bind]
  cases run : x.run with
  | none => simp
  | some result =>
    cases result with
    | ok a => simp
    | error e => simp [eq_comm]

end Partly

/-- Data, and how far it was read. -/
structure Parser where
  data : Bytes
  position : Nat

abbrev StrictReader (α : Type) := StateT Parser Partly α

namespace StrictReader

open Partly (slice minus narrow)

variable {α β : Type}

def need (value? : Option α) : StrictReader α := StateT.lift (Partly.need value?)

def ofPartly (x : Partly α) : StrictReader α := StateT.lift x

def malformed (defect : Defect) : StrictReader α := StateT.lift (Partly.malformed defect)

def mapError (f : Error → Error) (x : StrictReader α) : StrictReader α := fun p => ExceptT.adapt f (x p)

def orDefect (x : StrictReader α) (defect : Defect) : StrictReader α := x.mapError fun _ => .malformed defect

def parse (x : StrictReader α) (data : Bytes) : Partly α := do return (← x ⟨data, 0⟩).1

def position : StrictReader Nat := do return (← get).position

def hasMore : StrictReader Bool := do
  let p ← get
  return p.position < p.data.length

/-- The number of bytes that lie ahead, zero behind the end. -/
def remaining : StrictReader Nat := do
  let p ← get
  return p.data.length - p.position

def peek : StrictReader UInt8 := do
  let p ← get
  if p.data.length ≤ p.position then throw .outOfBounds
  need p.data[p.position]?

def take (count : Nat) : StrictReader Bytes := do
  let p ← get
  let stop := p.position + count
  if p.data.length < stop then throw .outOfBounds
  let bytes ← need (slice p.data p.position stop)
  set (⟨p.data, stop⟩ : Parser)
  return bytes

def skip (count : Nat) : StrictReader Unit := do
  let _ ← take count

def align (alignment : Nat) : StrictReader Unit := do
  let missing ← need (minus alignment ((← position) % alignment))
  skip (missing % alignment)

def byte : StrictReader UInt8 := do need (← take 1)[0]?

def u16 : StrictReader UInt16 := do return .ofNat (leNat (← take 2))

def u32 : StrictReader UInt32 := do return .ofNat (leNat (← take 4))

def u64 : StrictReader UInt64 := do return .ofNat (leNat (← take 8))

def payload : StrictReader (Compressed.Width × Nat) := do
  let first ← byte
  if first < 0x80 then return (.one, first.toNat)
  else if first < 0xC0 then
    let second ← byte
    return (.two, first.toNat % 2 ^ 6 * 2 ^ 8 + second.toNat)
  else if first < 0xE0 then
    let b ← byte
    let c ← byte
    let d ← byte
    return (.four, first.toNat % 2 ^ 5 * 2 ^ 24 + b.toNat * 2 ^ 16 + c.toNat * 2 ^ 8 + d.toNat)
  else malformed (.compressedLead first)

def compressed : StrictReader Nat := do return (← payload).2

/-- How many bits the payload has is counted from the bytes that were read. -/
def compressedInt : StrictReader Int := do
  let start ← position
  let (_, n) ← payload
  let size ← need (minus (← position) start)
  let bits := match size with
    | 1 => 7
    | 2 => 14
    | _ => 29
  let sign ← need (minus bits 1)
  return if n % 2 = 0 then Int.ofNat (n / 2) else Int.ofNat (n / 2) - 2 ^ sign

def column (wide : Bool) : StrictReader Nat := do return leNat (← take (columnWidth wide))

/-! Loops -/

section Loops

variable {σ : Type}

/-- A loop goes on with one value or ends with another. So many of its steps are taken; if it has not ended by then,
    there is no result. -/
def rounds (step : σ → StrictReader (σ ⊕ β)) : (count : Nat) → σ → StrictReader β
  | 0, _ => need none
  | count + 1, s => step s >>= Sum.elim (rounds step count) pure

open Classical in
/-- Takes the steps of a loop until it ends. A loop that does not end has no result. -/
noncomputable def loop (step : σ → StrictReader (σ ⊕ β)) (s : σ) : StrictReader β := fun p =>
  if ends : ∃ count y, (rounds step count s p).Gives y then rounds step ends.choose s p else Partly.need none

variable {step : σ → StrictReader (σ ⊕ β)} {s : σ} {p : Parser} {y : Result (β × Parser)}

theorem gives_bind {x : StrictReader α} {f : α → StrictReader β} :
    Partly.Gives ((x >>= f) p) y ↔ (∃ a, Partly.Gives (x p) (.ok a) ∧ Partly.Gives (f a.1 a.2) y) ∨
      ∃ e, Partly.Gives (x p) (.error e) ∧ y = .error e :=
  Partly.gives_bind_iff (x := x p) (f := fun a => f a.1 a.2)

theorem gives_more {count : Nat} (gives : (rounds step count s p).Gives y) : (rounds step (count + 1) s p).Gives y := by
  induction count generalizing s p with
  | zero => cases gives
  | succ count ih =>
    rw [rounds, gives_bind] at gives ⊢
    rcases gives with ⟨⟨next, p'⟩, first, rest⟩ | failed
    · cases next with
      | inl s => exact .inl ⟨_, first, ih rest⟩
      | inr b => exact .inl ⟨_, first, rest⟩
    · exact .inr failed

theorem gives_loop : (loop step s p).Gives y ↔ ∃ count, (rounds step count s p).Gives y := by
  have later {count more : Nat} {y : Result (β × Parser)} (gives : (rounds step count s p).Gives y)
      (le : count ≤ more) : (rounds step more s p).Gives y := Nat.le_induction gives (fun _ _ => gives_more) more le
  unfold loop
  split
  · rename_i ends
    obtain ⟨found, chosen⟩ := ends.choose_spec
    constructor
    · exact fun gives => ⟨_, gives⟩
    · rintro ⟨count, gives⟩
      have left := later gives (Nat.le_max_left count ends.choose)
      have right := later chosen (Nat.le_max_right count ends.choose)
      cases left.symm.trans right
      exact chosen
  · rename_i endless
    constructor
    · intro gives
      cases gives
    · rintro ⟨count, gives⟩
      exact absurd ⟨count, y, gives⟩ endless

/-- A loop takes a step, and goes on or ends. -/
theorem loop_eq (step : σ → StrictReader (σ ⊕ β)) (s : σ) : loop step s = step s >>= Sum.elim (loop step) pure := by
  funext p
  apply Partly.ext_gives
  intro y
  rw [gives_loop, gives_bind]
  constructor
  · rintro ⟨count, gives⟩
    cases count with
    | zero => cases gives
    | succ count =>
      rw [rounds, gives_bind] at gives
      rcases gives with ⟨⟨next, p'⟩, first, rest⟩ | failed
      · cases next with
        | inl s => exact .inl ⟨_, first, gives_loop.mpr ⟨count, rest⟩⟩
        | inr b => exact .inl ⟨_, first, rest⟩
      · exact .inr failed
  · rintro (⟨⟨next, p'⟩, first, rest⟩ | failed)
    · cases next with
      | inl s =>
        obtain ⟨count, rest⟩ := gives_loop.mp rest
        exact ⟨count + 1, gives_bind.mpr (.inl ⟨_, first, rest⟩)⟩
      | inr b => exact ⟨1, gives_bind.mpr (.inl ⟨_, first, rest⟩)⟩
    · exact ⟨1, gives_bind.mpr (.inr failed)⟩

end Loops

/-- Where the next zero byte is, or the end of the data. -/
def zeroFrom (data : Bytes) (position : Nat) : Option Nat :=
  if position < data.length then do
    if (← data[position]?) != 0 then zeroFrom data (position + 1) else return position
  else return position
termination_by data.length - position

def zeroTerminated : StrictReader String := do
  let p ← get
  let stop ← need (zeroFrom p.data p.position)
  let bytes ← need (slice p.data p.position stop)
  set (⟨p.data, if stop < p.data.length then stop + 1 else stop⟩ : Parser)
  match Utf8.decode bytes with
  | .ok text => return String.ofList text
  | .error fault => malformed (.notUtf8 p.position stop fault)

def timesFrom (x : StrictReader α) (done : List α) : (count : Nat) → StrictReader (List α)
  | 0 => return done.reverse
  | count + 1 => do
    let a ← x
    timesFrom x (a :: done) count

def times (count : Nat) (x : StrictReader α) : StrictReader (List α) := timesFrom x [] count

/-- Runs the reader while bytes lie ahead; `done` holds the results so far, last one first. -/
noncomputable def untilEndFrom (x : StrictReader α) : (done : List α) → StrictReader (List α) :=
  loop fun done => do
    if ← hasMore then
      let a ← x
      return .inl (a :: done)
    else return .inr done.reverse

noncomputable def untilEnd (x : StrictReader α) : StrictReader (List α) := untilEndFrom x []

theorem untilEndFrom_eq (x : StrictReader α) (done : List α) : untilEndFrom x done = (do
    if ← hasMore then
      let a ← x
      untilEndFrom x (a :: done)
    else return done.reverse) := by
  unfold untilEndFrom
  rw [loop_eq, bind_assoc]
  refine bind_congr fun more => ?_
  split <;> simp only [bind_assoc, pure_bind, Sum.elim_inl, Sum.elim_inr]

theorem get_bind (f : Parser → StrictReader α) (p : Parser) : ((get : StrictReader Parser) >>= f) p = f p p := rfl

theorem need_bind {value? : Option α} {a : α} (found : value? = some a) (f : α → StrictReader β) (p : Parser) :
    (need value? >>= f) p = f a p := by
  subst found
  rfl

/-- From the position on, the strict reader has the result of the reader, and it stays inside of the data. -/
structure AgreesAt (data : Bytes) (position : Nat) (x : StrictReader α) (r : Reader α) : Prop where
  fails : ∀ {e c}, r ⟨position, data.drop position⟩ = .error e c → x ⟨data, position⟩ = throw e
  answers : ∀ {a c}, r ⟨position, data.drop position⟩ = .ok a c → ∃ stop, c = ⟨stop, data.drop stop⟩ ∧
    position ≤ stop ∧ stop ≤ data.length ∧ x ⟨data, position⟩ = pure (a, ⟨data, stop⟩)

def Agrees (x : StrictReader α) (r : Reader α) : Prop :=
  ∀ (data : Bytes) (position : Nat), position ≤ data.length → AgreesAt data position x r

namespace AgreesAt

variable {data : Bytes} {start : Nat} {x : StrictReader α} {r : Reader α}

theorem answer {a : α} {stop : Nat} (run : r ⟨start, data.drop start⟩ = .ok a ⟨stop, data.drop stop⟩)
    (later : start ≤ stop) (inside : stop ≤ data.length) (same : x ⟨data, start⟩ = Pure.pure (a, ⟨data, stop⟩)) :
    AgreesAt data start x r := by
  refine ⟨fun failed => (by cases run.symm.trans failed), fun found => ?_⟩
  cases run.symm.trans found
  exact ⟨stop, rfl, later, inside, same⟩

theorem failure {e : Error} {c : Cursor} (run : r ⟨start, data.drop start⟩ = .error e c)
    (same : x ⟨data, start⟩ = throw e) : AgreesAt data start x r := by
  refine ⟨fun failed => ?_, fun found => (by cases run.symm.trans found)⟩
  cases run.symm.trans failed
  exact same

theorem congr {x' : StrictReader α} (same : x ⟨data, start⟩ = x' ⟨data, start⟩) (agrees : AgreesAt data start x' r) :
    AgreesAt data start x r :=
  ⟨fun run => same.trans (agrees.fails run), fun run => same ▸ agrees.answers run⟩

theorem pure (a : α) (inside : start ≤ data.length) : AgreesAt data start (Pure.pure a) (Pure.pure a) :=
  answer rfl (Nat.le_refl _) inside rfl

theorem malformed (defect : Defect) :
    AgreesAt data start (StrictReader.malformed defect : StrictReader α) (Reader.malformed defect) := failure rfl rfl

theorem bind {f : α → StrictReader β} {g : α → Reader β} (first : AgreesAt data start x r)
    (second : ∀ a stop, start ≤ stop → stop ≤ data.length →
      r ⟨start, data.drop start⟩ = .ok a ⟨stop, data.drop stop⟩ → AgreesAt data stop (f a) (g a)) :
    AgreesAt data start (x >>= f) (r >>= g) := by
  have run (y : Partly (α × Parser)) (same : x ⟨data, start⟩ = y) :
      (x >>= f) ⟨data, start⟩ = y >>= fun found => f found.1 found.2 := by
    rw [← same]
    rfl
  cases one : r ⟨start, data.drop start⟩ with
  | error fault middle =>
    have failed := run _ (first.fails one)
    refine ⟨fun h => ?_, fun h => ?_⟩
    · rw [Step.bind_apply, one] at h
      cases h
      exact failed
    · rw [Step.bind_apply, one] at h
      cases h
  | ok a middle =>
    obtain ⟨stop, rfl, later, inside, same⟩ := first.answers one
    have rest := second a stop later inside one
    have whole : (x >>= f) ⟨data, start⟩ = f a ⟨data, stop⟩ := run _ same
    refine ⟨fun h => ?_, fun h => ?_⟩
    · rw [Step.bind_apply, one] at h
      exact whole.trans (rest.fails h)
    · rw [Step.bind_apply, one] at h
      obtain ⟨last, ends, after, within, answer⟩ := rest.answers h
      exact ⟨last, ends, Nat.le_trans later after, within, whole.trans answer⟩

theorem need {value? : Option α} {a : α} {f : α → StrictReader β} {r : Reader β} (found : value? = some a)
    (rest : AgreesAt data start (f a) r) : AgreesAt data start (StrictReader.need value? >>= f) r := by
  subst found
  exact rest

/-- The position may be asked for at any time. -/
theorem position_left {f : Nat → StrictReader α} (agrees : AgreesAt data start (f start) r) :
    AgreesAt data start (StrictReader.position >>= f) r := by
  have same : (StrictReader.position >>= f) ⟨data, start⟩ = f start ⟨data, start⟩ := rfl
  exact congr same agrees

theorem ite {condition : Prop} [Decidable condition] {x' : StrictReader α} {r' : Reader α}
    (first : condition → AgreesAt data start x r) (second : ¬ condition → AgreesAt data start x' r') :
    AgreesAt data start (if condition then x else x') (if condition then r else r') := by
  by_cases holds : condition
  · rw [if_pos holds, if_pos holds]
    exact first holds
  · rw [if_neg holds, if_neg holds]
    exact second holds

theorem malformed_bind (defect : Defect) (f : β → StrictReader α) (g : β → Reader α) :
    AgreesAt data start (StrictReader.malformed defect >>= f) (Reader.malformed defect >>= g) := failure rfl rfl

/-- A check that finds a defect. -/
theorem check {condition : Prop} [Decidable condition] {defect : Defect} {f : PUnit → StrictReader α} {g : PUnit → Reader α}
    (others : ¬ condition → AgreesAt data start x r) :
    AgreesAt data start (if condition then StrictReader.malformed defect >>= f else x)
      (if condition then Reader.malformed defect >>= g else r) := ite (fun _ => malformed_bind defect f g) others

end AgreesAt

namespace Agrees

variable {x : StrictReader α} {r : Reader α}

theorem pure (a : α) : Agrees (Pure.pure a) (Pure.pure a) := fun _ _ inside => .pure a inside

theorem malformed (defect : Defect) : Agrees (StrictReader.malformed defect : StrictReader α) (Reader.malformed defect) :=
  fun _ _ _ => .malformed defect

theorem throw (e : Error) : Agrees (MonadExcept.throw e : StrictReader α) (MonadExcept.throw e) :=
  fun _ _ _ => .failure rfl rfl

theorem bind {f : α → StrictReader β} {g : α → Reader β} (first : Agrees x r) (second : ∀ a, Agrees (f a) (g a)) :
    Agrees (x >>= f) (r >>= g) :=
  fun data start inside => (first data start inside).bind fun a stop _ within _ => second a data stop within

theorem need {value? : Option α} {a : α} {f : α → StrictReader β} {r : Reader β} (found : value? = some a)
    (rest : Agrees (f a) r) : Agrees (StrictReader.need value? >>= f) r := fun _ _ inside =>
  .need found (rest _ _ inside)

theorem ite {condition : Prop} [Decidable condition] {x' : StrictReader α} {r' : Reader α}
    (first : condition → Agrees x r) (second : ¬ condition → Agrees x' r') :
    Agrees (if condition then x else x') (if condition then r else r') :=
  fun _ _ inside => .ite (fun holds => first holds _ _ inside) fun fails => second fails _ _ inside

theorem check {condition : Prop} [Decidable condition] {defect : Defect} {f : PUnit → StrictReader α} {g : PUnit → Reader α}
    (others : ¬ condition → Agrees x r) :
    Agrees (if condition then StrictReader.malformed defect >>= f else x)
      (if condition then Reader.malformed defect >>= g else r) := fun _ _ inside =>
  .check fun fails => others fails _ _ inside

theorem map (agrees : Agrees x r) (f : α → β) : Agrees (f <$> x) (f <$> r) := by
  intro data start inside
  have both := (agrees data start inside).bind (f := fun a => Pure.pure (f a)) (g := fun a => Pure.pure (f a))
    fun a _ _ within _ => AgreesAt.pure (f a) within
  rw [bind_pure_comp, bind_pure_comp] at both
  exact both

theorem mapError (agrees : Agrees x r) (f : Error → Error) : Agrees (x.mapError f) (r.mapError f) := by
  intro data start inside
  cases one : r ⟨start, data.drop start⟩ with
  | ok a c =>
    obtain ⟨stop, rfl, later, within, same⟩ := (agrees data start inside).answers one
    have run : r.mapError f ⟨start, data.drop start⟩ = .ok a ⟨stop, data.drop stop⟩ := by
      unfold Reader.mapError
      rw [one]
    refine .answer run later within ?_
    unfold StrictReader.mapError
    rw [same]
    rfl
  | error e c =>
    have run : r.mapError f ⟨start, data.drop start⟩ = .error (f e) c := by
      unfold Reader.mapError
      rw [one]
    refine .failure run ?_
    unfold StrictReader.mapError
    rw [(agrees data start inside).fails one]
    rfl

theorem orDefect (agrees : Agrees x r) (defect : Defect) : Agrees (x.orDefect defect) (r.orDefect defect) :=
  agrees.mapError _

theorem ofPartly {y : Partly α} {z : Result α} (gives : y.Gives z) :
    Agrees (StrictReader.ofPartly y) (Reader.ofResult z) := by
  intro data start inside
  have run : StrictReader.ofPartly y ⟨data, start⟩ = Partly.of z >>= fun a => Pure.pure (a, ⟨data, start⟩) := by
    rw [show Partly.of z = y from gives.symm]
    rfl
  cases z with
  | ok a => exact .answer rfl (Nat.le_refl _) inside run
  | error e => exact .failure rfl run

theorem mapM {f : α → StrictReader β} {g : α → Reader β} (each : ∀ a, Agrees (f a) (g a)) (items : List α) :
    Agrees (items.mapM f) (items.mapM g) := by
  induction items with
  | nil =>
    rw [List.mapM_nil, List.mapM_nil]
    exact pure []
  | cons a items ih =>
    rw [List.mapM_cons, List.mapM_cons]
    exact (each a).bind fun b => ih.bind fun bs => pure (b :: bs)

theorem timesFrom (agrees : Agrees x r) (done : List α) (count : Nat) :
    Agrees (StrictReader.timesFrom x done count) (Reader.timesFrom r done count) := by
  induction count generalizing done with
  | zero => exact pure done.reverse
  | succ count ih => exact agrees.bind fun a => ih (a :: done)

theorem times (agrees : Agrees x r) (count : Nat) : Agrees (StrictReader.times count x) (Reader.times count r) :=
  agrees.timesFrom [] count

end Agrees

theorem AgreesAt.parse {data : Bytes} {x : StrictReader α} {r : Reader α} (at_start : AgreesAt data 0 x r) :
    (x.parse data).Gives (r.parse data) := by
  unfold StrictReader.parse Reader.parse EStateM.run
  cases run : r (.start data) with
  | ok a c =>
    obtain ⟨stop, -, -, -, same⟩ := at_start.answers run
    change (x ⟨data, 0⟩ >>= fun found => Pure.pure found.1) = _
    rw [same]
    rfl
  | error e c =>
    change (x ⟨data, 0⟩ >>= fun found => Pure.pure found.1) = _
    rw [at_start.fails run]
    rfl

theorem Agrees.parse {x : StrictReader α} {r : Reader α} (agrees : Agrees x r) (data : Bytes) :
    (x.parse data).Gives (r.parse data) := (agrees data 0 (Nat.zero_le _)).parse

/-! The operations -/

theorem getElem?_of_drop {data rest : Bytes} {position : Nat} {b : UInt8} (h : data.drop position = b :: rest) :
    data[position]? = some b := by
  have first := congrArg List.head? h
  rwa [List.head?_drop] at first

namespace Agrees

theorem position : Agrees StrictReader.position Reader.position :=
  fun _ _ inside => .answer rfl (Nat.le_refl _) inside rfl

theorem hasMore : Agrees StrictReader.hasMore Reader.hasMore := by
  intro data start inside
  have same : (decide (start < data.length)) = !(data.drop start).isEmpty := by
    rw [Bool.eq_iff_iff, decide_eq_true_eq, Bool.not_eq_true', List.isEmpty_eq_false_iff, ne_eq, List.drop_eq_nil_iff]
    omega
  refine .answer rfl (Nat.le_refl _) inside ?_
  change (Pure.pure (decide (start < data.length), (⟨data, start⟩ : Parser)) : Partly _) = _
  rw [same]

theorem remaining : Agrees StrictReader.remaining Reader.remaining := by
  intro data start inside
  refine .answer rfl (Nat.le_refl _) inside ?_
  change (Pure.pure (data.length - start, (⟨data, start⟩ : Parser)) : Partly _) = _
  rw [← List.length_drop]

theorem peek : Agrees StrictReader.peek Reader.peek := by
  intro data start inside
  cases ahead : data.drop start with
  | nil =>
    have ended := List.drop_eq_nil_iff.mp ahead
    have run : Reader.peek ⟨start, data.drop start⟩ = .error .outOfBounds ⟨start, data.drop start⟩ := by
      rw [ahead]
      rfl
    refine .failure run ?_
    change (if data.length ≤ start then (_ : StrictReader UInt8) else _) ⟨data, start⟩ = _
    rw [if_pos ended]
    rfl
  | cons b rest =>
    have more : ¬ data.length ≤ start := fun ended => by rw [List.drop_eq_nil_iff.mpr ended] at ahead; cases ahead
    have run : Reader.peek ⟨start, data.drop start⟩ = .ok b ⟨start, data.drop start⟩ := by
      rw [ahead]
      rfl
    refine .answer run (Nat.le_refl _) inside ?_
    change (if data.length ≤ start then (_ : StrictReader UInt8) else StrictReader.need data[start]?) ⟨data, start⟩ = _
    rw [if_neg more, getElem?_of_drop ahead]
    rfl

theorem take (count : Nat) : Agrees (StrictReader.take count) (Reader.take count) := by
  intro data start inside
  by_cases enough : start + count ≤ data.length
  · have length : ((data.drop start).take count).length = count := by
      rw [List.length_take, List.length_drop]
      omega
    have run : Reader.take count ⟨start, data.drop start⟩ =
        .ok ((data.drop start).take count) ⟨start + count, data.drop (start + count)⟩ := by
      unfold Reader.take
      dsimp only
      rw [if_pos length, List.drop_drop]
    refine .answer run (Nat.le_add_right _ _) enough ?_
    change (if data.length < start + count then (_ : StrictReader Bytes)
      else StrictReader.need (slice data start (start + count)) >>= _) ⟨data, start⟩ = _
    rw [if_neg (Nat.not_lt.mpr enough), Partly.slice_of_le (Nat.le_add_right _ _) enough, Nat.add_sub_cancel_left]
    rfl
  · have length : ((data.drop start).take count).length ≠ count := by
      rw [List.length_take, List.length_drop]
      omega
    have run : Reader.take count ⟨start, data.drop start⟩ = .error .outOfBounds ⟨start, data.drop start⟩ := by
      unfold Reader.take
      dsimp only
      rw [if_neg length]
    refine .failure run ?_
    change (if data.length < start + count then (_ : StrictReader Bytes) else _) ⟨data, start⟩ = _
    rw [if_pos (Nat.not_le.mp enough)]
    rfl

theorem skip (count : Nat) : Agrees (StrictReader.skip count) (Reader.skip count) := (take count).bind fun _ => .pure ()

theorem align {alignment : Nat} (positive : 0 < alignment) :
    Agrees (StrictReader.align alignment) (Reader.align alignment) :=
  position.bind fun start => .need (Partly.minus_of_le (Nat.le_of_lt (Nat.mod_lt start positive))) (skip _)

/-- One byte, as a run of bytes of length one. -/
theorem byte_eq_take : Reader.byte = Reader.take 1 >>= fun bytes => match bytes with
    | b :: _ => Pure.pure b
    | [] => MonadExcept.throw .outOfBounds := by
  funext c
  obtain ⟨position, rest⟩ := c
  cases rest <;> rfl

theorem byte : Agrees StrictReader.byte Reader.byte := by
  rw [byte_eq_take]
  intro data start inside
  refine (take 1 data start inside).bind fun bytes stop _ within run => ?_
  cases bytes with
  | nil =>
    unfold Reader.take at run
    dsimp only at run
    split at run
    · rename_i length
      injection run with empty
      rw [empty] at length
      cases length
    · cases run
  | cons b others => exact .pure b within

theorem u16 : Agrees StrictReader.u16 Reader.u16 := (take 2).bind fun _ => .pure _

theorem u32 : Agrees StrictReader.u32 Reader.u32 := (take 4).bind fun _ => .pure _

theorem u64 : Agrees StrictReader.u64 Reader.u64 := (take 8).bind fun _ => .pure _

theorem column (wide : Bool) : Agrees (StrictReader.column wide) (Reader.column wide) := (take _).bind fun _ => .pure _

theorem payload : Agrees StrictReader.payload Reader.payload := by
  refine byte.bind fun first => .ite (fun _ => .pure _) fun _ => .ite (fun _ => byte.bind fun _ => .pure _) fun _ => ?_
  exact .ite (fun _ => byte.bind fun _ => byte.bind fun _ => byte.bind fun _ => .pure _) fun _ => .malformed _

theorem compressed : Agrees StrictReader.compressed Reader.compressed := payload.bind fun _ => .pure _

end Agrees

/-- The number of bytes of a payload. -/
def sizeOf : Compressed.Width → Nat
  | .one => 1
  | .two => 2
  | .four => 4

theorem position_of_byte {c c' : Cursor} {b : UInt8} (h : Reader.byte c = .ok b c') : c'.position = c.position + 1 := by
  unfold Reader.byte at h
  split at h
  · cases h
  · cases h
    rfl

theorem position_of_payload {c c' : Cursor} {w : Compressed.Width} {n : Nat} (h : Reader.payload c = .ok (w, n) c') :
    c'.position = c.position + sizeOf w := by
  unfold Reader.payload at h
  obtain ⟨first, c₁, one, h⟩ := Step.bind_eq_ok.mp h
  have p₁ := position_of_byte one
  by_cases small : first < 0x80
  · rw [if_pos small] at h
    cases h
    exact p₁
  · rw [if_neg small] at h
    by_cases medium : first < 0xC0
    · rw [if_pos medium] at h
      obtain ⟨second, c₂, two, h⟩ := Step.bind_eq_ok.mp h
      have p₂ := position_of_byte two
      cases h
      rw [p₂, p₁]
      rfl
    · rw [if_neg medium] at h
      by_cases large : first < 0xE0
      · rw [if_pos large] at h
        obtain ⟨b, c₂, two, h⟩ := Step.bind_eq_ok.mp h
        obtain ⟨c, c₃, three, h⟩ := Step.bind_eq_ok.mp h
        obtain ⟨d, c₄, four, h⟩ := Step.bind_eq_ok.mp h
        have p₂ := position_of_byte two
        have p₃ := position_of_byte three
        have p₄ := position_of_byte four
        cases h
        rw [p₄, p₃, p₂, p₁]
        rfl
      · rw [if_neg large] at h
        cases h

namespace Agrees

theorem compressedInt : Agrees StrictReader.compressedInt Reader.compressedInt := by
  intro data start inside
  refine .position_left ((payload data start inside).bind ?_)
  rintro ⟨w, n⟩ stop later within read
  have passed : stop = start + sizeOf w := position_of_payload read
  have size : minus stop start = some (sizeOf w) := by
    rw [Partly.minus_of_le later]
    exact congrArg some (by omega)
  refine .position_left (.need size ?_)
  cases w with
  | one => exact .need (a := 6) rfl (.pure _ within)
  | two => exact .need (a := 13) rfl (.pure _ within)
  | four => exact .need (a := 28) rfl (.pure _ within)

theorem zeroFrom_eq {data : Bytes} {position : Nat} (inside : position ≤ data.length) :
    zeroFrom data position = some (position + ((data.drop position).takeWhile (· != 0)).length) := by
  induction rest : data.drop position generalizing position with
  | nil =>
    rw [zeroFrom, if_neg (Nat.not_lt.mpr (List.drop_eq_nil_iff.mp rest))]
    rfl
  | cons b others ih =>
    have more : position < data.length := by
      by_contra ended
      rw [List.drop_eq_nil_iff.mpr (Nat.le_of_not_lt ended)] at rest
      cases rest
    have next : data.drop (position + 1) = others := by
      rw [← List.drop_drop, rest]
      rfl
    rw [zeroFrom, if_pos more, getElem?_of_drop rest, List.takeWhile_cons]
    change (if b != 0 then zeroFrom data (position + 1) else some position) = _
    split
    · rw [ih more next, List.length_cons]
      exact congrArg some (by omega)
    · rfl

/-- A byte is skipped if one is left. -/
theorem cursor_after (data : Bytes) (start size : Nat) : (match (data.drop start).drop size with
    | [] => (⟨start + size, []⟩ : Cursor)
    | _ :: rest => ⟨start + size + 1, rest⟩) =
      let next := if start + size < data.length then start + size + 1 else start + size
      ⟨next, data.drop next⟩ := by
  rw [List.drop_drop]
  cases ahead : data.drop (start + size) with
  | nil =>
    have none : ¬ start + size < data.length := Nat.not_lt.mpr (List.drop_eq_nil_iff.mp ahead)
    simp only [if_neg none, ahead]
  | cons b rest =>
    have more : start + size < data.length := by
      by_contra ended
      rw [List.drop_eq_nil_iff.mpr (Nat.le_of_not_lt ended)] at ahead
      cases ahead
    simp only [if_pos more]
    rw [← List.drop_drop, ahead]
    rfl

theorem zeroTerminated : Agrees StrictReader.zeroTerminated Reader.zeroTerminated := by
  intro data start inside
  have shorter := (List.takeWhile_sublist (· != (0 : UInt8)) (l := data.drop start)).length_le
  rw [List.length_drop] at shorter
  let stop := start + ((data.drop start).takeWhile (· != 0)).length
  have within : stop ≤ data.length := by omega
  have found : zeroFrom data start = some stop := zeroFrom_eq inside
  have bytes : slice data start stop = some ((data.drop start).takeWhile (· != 0)) := by
    rw [Partly.slice_of_le (Nat.le_add_right _ _) within, Nat.add_sub_cancel_left]
    exact congrArg some (List.prefix_iff_eq_take.mp (List.takeWhile_prefix _)).symm
  let next := if stop < data.length then stop + 1 else stop
  have later : start ≤ next := by
    simp only [next]
    split <;> omega
  have ends : next ≤ data.length := by
    simp only [next]
    split <;> omega
  have strict : StrictReader.zeroTerminated ⟨data, start⟩ = (match Utf8.decode ((data.drop start).takeWhile (· != 0)) with
      | .ok text => Pure.pure (String.ofList text)
      | .error fault => StrictReader.malformed (.notUtf8 start stop fault)) ⟨data, next⟩ := by
    unfold StrictReader.zeroTerminated
    rw [get_bind, need_bind found, need_bind bytes]
    rfl
  have after := cursor_after data start ((data.drop start).takeWhile (· != 0)).length
  have reader : Reader.zeroTerminated ⟨start, data.drop start⟩ =
      match Utf8.decode ((data.drop start).takeWhile (· != 0)) with
      | .ok text => .ok (String.ofList text) ⟨next, data.drop next⟩
      | .error fault => .error (.malformed (.notUtf8 start stop fault)) ⟨next, data.drop next⟩ := by
    rw [← after]
    rfl
  cases decoded : Utf8.decode ((data.drop start).takeWhile (· != 0)) with
  | ok text =>
    rw [decoded] at strict reader
    exact .answer reader later ends strict
  | error fault =>
    rw [decoded] at strict reader
    exact .failure reader strict

end Agrees

/-- The reader consumes a byte at least, if it answers. -/
def Advances (r : Reader α) : Prop := ∀ {data : Bytes} {start stop : Nat} {a : α}, start ≤ data.length →
  r ⟨start, data.drop start⟩ = .ok a ⟨stop, data.drop stop⟩ → start < stop

/-- The strict reader agrees with one that advances. -/
def Moves (x : StrictReader α) (r : Reader α) : Prop := Agrees x r ∧ Advances r

namespace Moves

theorem byte : Moves StrictReader.byte Reader.byte := by
  refine ⟨Agrees.byte, fun {data start stop b} _ run => ?_⟩
  have next : stop = start + 1 := position_of_byte run
  omega

theorem bind_left {x : StrictReader α} {r : Reader α} {f : α → StrictReader β} {g : α → Reader β} (first : Moves x r)
    (second : ∀ a, Agrees (f a) (g a)) : Moves (x >>= f) (r >>= g) := by
  refine ⟨first.1.bind second, fun {data start stop b} inside run => ?_⟩
  obtain ⟨a, c, one, two⟩ := Step.bind_eq_ok.mp run
  obtain ⟨middle, rfl, -, within, -⟩ := (first.1 data start inside).answers one
  obtain ⟨last, same, later, -, -⟩ := (second a data middle within).answers two
  have passed := first.2 inside one
  have last : stop = last := congrArg Cursor.position same
  omega

theorem bind_right {x : StrictReader α} {r : Reader α} {f : α → StrictReader β} {g : α → Reader β} (first : Agrees x r)
    (second : ∀ a, Moves (f a) (g a)) : Moves (x >>= f) (r >>= g) := by
  refine ⟨first.bind fun a => (second a).1, fun {data start stop b} inside run => ?_⟩
  obtain ⟨a, c, one, two⟩ := Step.bind_eq_ok.mp run
  obtain ⟨middle, rfl, later, within, -⟩ := (first data start inside).answers one
  have passed := (second a).2 within two
  omega

theorem mapError {x : StrictReader α} {r : Reader α} (moves : Moves x r) (f : Error → Error) :
    Moves (x.mapError f) (r.mapError f) := by
  refine ⟨moves.1.mapError f, fun {data start stop a} inside run => ?_⟩
  unfold Reader.mapError at run
  cases one : r ⟨start, data.drop start⟩ with
  | ok a' c =>
    rw [one] at run
    cases run
    exact moves.2 inside one
  | error e c =>
    rw [one] at run
    cases run

end Moves

/-- A loop ends where no byte lies ahead. -/
theorem AgreesAt.ended {data : Bytes} {start : Nat} {more x : StrictReader α} {r : Reader α} (none : data.length ≤ start)
    (agrees : AgreesAt data start x r) : AgreesAt data start (do if ← hasMore then more else x) r := by
  refine congr ?_ agrees
  change (if decide (start < data.length) = true then more else x) ⟨data, start⟩ = x ⟨data, start⟩
  rw [if_neg (by simpa using none)]

/-- A loop that advances ends with the data, so that the steps that a reader may take are enough. -/
theorem agreesAt_untilEndFrom {x : StrictReader α} {r : Reader α} {data : Bytes}
    (agrees : ∀ position, position ≤ data.length → AgreesAt data position x r) (advances : Advances r) {start fuel : Nat}
    (inside : start ≤ data.length) (enough : data.length - start ≤ fuel) (done : List α) :
    AgreesAt data start (StrictReader.untilEndFrom x done) (Reader.untilEndFrom r done fuel) := by
  induction fuel generalizing start done with
  | zero =>
    rw [StrictReader.untilEndFrom_eq]
    exact .ended (by omega) (.pure _ inside)
  | succ fuel ih =>
    rw [StrictReader.untilEndFrom_eq]
    refine (Agrees.hasMore data start inside).bind fun more stop later within run => ?_
    cases run
    refine .ite (fun _ => ?_) fun _ => .pure _ inside
    refine (agrees start inside).bind fun a stop _ within run => ih within ?_ (a :: done)
    have advanced : start < stop := advances inside run
    omega

theorem agreesAt_untilEnd {x : StrictReader α} {r : Reader α} {data : Bytes}
    (agrees : ∀ position, position ≤ data.length → AgreesAt data position x r) (advances : Advances r) {start : Nat}
    (inside : start ≤ data.length) : AgreesAt data start (StrictReader.untilEnd x) (Reader.untilEnd r) := by
  have loop := agreesAt_untilEndFrom agrees advances inside (Nat.le_refl _) []
  rw [← List.length_drop] at loop
  exact ⟨fun run => loop.fails run, fun run => loop.answers run⟩

theorem Moves.untilEnd {x : StrictReader α} {r : Reader α} (moves : Moves x r) :
    Agrees (StrictReader.untilEnd x) (Reader.untilEnd r) :=
  fun data _ inside => agreesAt_untilEnd (moves.1 data) moves.2 inside

end StrictReader

end CilWeaver
