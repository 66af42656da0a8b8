import CilWeaver.Bytes.Column
import CilWeaver.Bytes.Compressed
import CilWeaver.Proofs.Steps

/-!
How reading fails. A reader of bytes blames the data, whatever the data is: they are malformed, or they end
too early.
-/

namespace CilWeaver

open Step

namespace Step

variable {α ε : Type}

def failure? {σ : Type} : EStateM.Result ε σ α → Option ε
  | .ok _ _ => none
  | .error e _ => some e

/-- The failure of a step without a state, which can be computed. -/
theorem eq_error_of_failure? {result : EStateM.Result ε Unit α} {e : ε} (failed : failure? result = some e) :
    result = .error e () := by
  cases result with
  | ok a s => cases failed
  | error e' s =>
    cases failed
    rfl

end Step

namespace Outcome

variable {α β ε : Type}

/-- If it fails, the failure satisfies `p`. -/
def FailsWith (p : ε → Prop) (x : Except ε α) : Prop := ∀ e, x = .error e → p e

namespace FailsWith

variable {p : ε → Prop}

theorem ok (a : α) : FailsWith p (.ok a) := by
  intro e h
  cases h

theorem pure (a : α) : FailsWith p (Pure.pure a) := ok a

theorem error {e : ε} (holds : p e) : FailsWith p (.error e : Except ε α) := by
  intro e' h
  cases h
  exact holds

/-- What the first step has answered is known to the second one. -/
theorem bind_of {x : Except ε α} {f : α → Except ε β} (first : FailsWith p x) (second : ∀ a, x = .ok a → FailsWith p (f a)) :
    FailsWith p (x >>= f) := by
  intro e h
  cases x with
  | ok a => exact second a rfl e h
  | error fault =>
    cases h
    exact first e rfl

theorem bind {x : Except ε α} {f : α → Except ε β} (first : FailsWith p x) (second : ∀ a, FailsWith p (f a)) :
    FailsWith p (x >>= f) :=
  first.bind_of fun a _ => second a

/-- What cannot fail has a result. -/
theorem exists_ok {x : Except ε α} (never : FailsWith (fun _ => False) x) : ∃ a, x = .ok a := by
  cases x with
  | ok a => exact ⟨a, rfl⟩
  | error e => exact (never e rfl).elim

theorem map {x : Except ε α} (fails : FailsWith p x) (f : α → β) : FailsWith p (x.map f) := by
  intro e h
  cases x with
  | ok a => cases h
  | error fault =>
    cases h
    exact fails e rfl

theorem ite {condition : Prop} [Decidable condition] {x y : Except ε α} (first : FailsWith p x) (second : FailsWith p y) :
    FailsWith p (if condition then x else y) := by
  split
  · exact first
  · exact second

theorem mapM {f : α → Except ε β} (each : ∀ a, FailsWith p (f a)) (items : List α) : FailsWith p (items.mapM f) := by
  induction items with
  | nil => exact pure []
  | cons a items ih =>
    rw [List.mapM_cons]
    exact (each a).bind fun b => ih.bind fun bs => pure (b :: bs)

theorem option_mapM {f : α → Except ε β} (each : ∀ a, FailsWith p (f a)) (item? : Option α) :
    FailsWith p (item?.mapM f) := by
  cases item? with
  | none => exact pure none
  | some a => exact (each a).bind fun b => pure (some b)

theorem forM {f : α → Except ε PUnit} (each : ∀ a, FailsWith p (f a)) (items : List α) : FailsWith p (items.forM f) := by
  induction items with
  | nil => exact pure ()
  | cons a items ih => exact (each a).bind fun _ => ih

end FailsWith

/-- A last step that only changes the answer does not matter for a failure. -/
theorem bind_pure_eq_error {x : Except ε α} {f : α → β} {e : ε} :
    (x >>= fun a => Pure.pure (f a)) = .error e ↔ x = .error e := by
  cases x with
  | ok a => exact ⟨fun h => (by cases h), fun h => (by cases h)⟩
  | error fault => exact ⟨fun h => (by cases h; rfl), fun h => (by cases h; rfl)⟩

/-- A loop over a list fails with the first item that fails. -/
theorem mapM_eq_error {f : α → Except ε β} {items : List α} {e : ε} :
    items.mapM f = .error e ↔ ∃ earlier a later, items = earlier ++ a :: later ∧ (∀ b ∈ earlier, ∃ c, f b = .ok c) ∧
      f a = .error e := by
  induction items with
  | nil =>
    rw [List.mapM_nil]
    constructor
    · intro h
      cases h
    · rintro ⟨earlier, a, later, same, -⟩
      simp at same
  | cons a items ih =>
    rw [List.mapM_cons]
    cases first : f a with
    | error fault =>
      constructor
      · intro h
        cases h
        exact ⟨[], a, items, rfl, fun _ member => absurd member List.not_mem_nil, first⟩
      · rintro ⟨earlier, b, later, same, before, failed⟩
        cases earlier with
        | nil =>
          cases same
          cases first.symm.trans failed
          rfl
        | cons a' earlier =>
          cases same
          obtain ⟨c, answered⟩ := before a List.mem_cons_self
          cases first.symm.trans answered
    | ok c =>
      rw [ok_bind, bind_pure_eq_error, ih]
      constructor
      · rintro ⟨earlier, b, later, rfl, before, failed⟩
        exact ⟨a :: earlier, b, later, rfl, List.forall_mem_cons.mpr ⟨⟨c, first⟩, before⟩, failed⟩
      · rintro ⟨earlier, b, later, same, before, failed⟩
        cases earlier with
        | nil =>
          cases same
          cases first.symm.trans failed
        | cons a' earlier =>
          cases same
          exact ⟨earlier, b, later, rfl, (List.forall_mem_cons.mp before).2, failed⟩

/-- If it fails, the data that was read is at fault. -/
abbrev BlamesData (x : Result α) : Prop := FailsWith (fun e => e.isMalformed = true) x

namespace FailsWith

theorem malformed (defect : Defect) : BlamesData (.error (.malformed defect) : Result α) := .error rfl

theorem outOfBounds : BlamesData (.error .outOfBounds : Result α) := .error rfl

/-- A check that finds a defect. -/
theorem check {condition : Prop} [Decidable condition] {defect : Defect} {f : PUnit → Result α} {x : Result α}
    (others : BlamesData x) :
    BlamesData (if condition then (.error (.malformed defect) : Result PUnit) >>= f else x) :=
  .ite (malformed defect) others

end FailsWith

end Outcome

namespace Reader

open Outcome (BlamesData)

variable {α β : Type}

/-- If the reader fails, the data is at fault. -/
def BlamesData (r : Reader α) : Prop := ∀ c e c', r c = .error e c' → e.isMalformed = true

namespace BlamesData

theorem pure (a : α) : BlamesData (Pure.pure a : Reader α) := by
  intro c e c' run
  cases run

theorem throw {e : Error} (fault : e.isMalformed = true) : BlamesData (MonadExcept.throw e : Reader α) := by
  intro c e' c' run
  cases run
  exact fault

theorem malformed (defect : Defect) : BlamesData (Reader.malformed defect : Reader α) := throw rfl

theorem bind {r : Reader α} {f : α → Reader β} (first : r.BlamesData) (second : ∀ a, (f a).BlamesData) :
    BlamesData (r >>= f) := by
  intro c e c' run
  rw [bind_apply] at run
  cases one : r c with
  | ok a middle =>
    rw [one] at run
    exact second a middle e c' run
  | error fault middle =>
    rw [one] at run
    cases run
    exact first c e c' one

theorem map {r : Reader α} (blames : r.BlamesData) (f : α → β) : BlamesData (f <$> r) := by
  intro c e c' run
  rw [map_apply] at run
  cases one : r c with
  | ok a middle =>
    rw [one] at run
    cases run
  | error fault middle =>
    rw [one] at run
    cases run
    exact blames c e c' one

theorem ite {condition : Prop} [Decidable condition] {r r' : Reader α} (first : r.BlamesData) (second : r'.BlamesData) :
    BlamesData (if condition then r else r') := by
  split
  · exact first
  · exact second

theorem malformed_bind (defect : Defect) (f : α → Reader β) : BlamesData (Reader.malformed defect >>= f) := by
  intro c e c' run
  cases run
  rfl

theorem check {condition : Prop} [Decidable condition] {defect : Defect} {f : Unit → Reader α} {r : Reader α}
    (others : r.BlamesData) : BlamesData (if condition then Reader.malformed defect >>= f else r) :=
  ite (malformed_bind defect f) others

theorem mapError {r : Reader α} (blames : r.BlamesData) {f : Error → Error}
    (kept : ∀ e, e.isMalformed = true → (f e).isMalformed = true) : BlamesData (r.mapError f) := by
  intro c e c' run
  unfold Reader.mapError at run
  cases one : r c with
  | ok a middle =>
    rw [one] at run
    cases run
  | error fault middle =>
    rw [one] at run
    cases run
    exact kept fault (blames c fault c' one)

theorem orDefect (r : Reader α) (defect : Defect) : BlamesData (r.orDefect defect) := by
  intro c e c' run
  unfold Reader.orDefect Reader.mapError at run
  cases one : r c with
  | ok a middle =>
    rw [one] at run
    cases run
  | error fault middle =>
    rw [one] at run
    cases run
    rfl

theorem ofResult {x : Result α} (blames : Outcome.BlamesData x) : BlamesData (Reader.ofResult x) := by
  cases x with
  | ok a => exact pure a
  | error e => exact throw (blames e rfl)

theorem mapM {f : α → Reader β} (each : ∀ a, (f a).BlamesData) (items : List α) : BlamesData (items.mapM f) := by
  induction items with
  | nil => exact pure []
  | cons a items ih =>
    rw [List.mapM_cons]
    exact (each a).bind fun b => ih.bind fun bs => pure (b :: bs)

theorem timesFrom {r : Reader α} (blames : r.BlamesData) (done : List α) (count : Nat) :
    BlamesData (Reader.timesFrom r done count) := by
  induction count generalizing done with
  | zero => exact pure done.reverse
  | succ count ih => exact blames.bind fun a => ih (a :: done)

theorem times {r : Reader α} (blames : r.BlamesData) (count : Nat) : BlamesData (Reader.times count r) :=
  blames.timesFrom [] count

theorem parse {r : Reader α} (blames : r.BlamesData) (data : Bytes) : Outcome.BlamesData (r.parse data) := by
  intro e h
  unfold Reader.parse EStateM.run at h
  cases run : r (.start data) with
  | ok a c =>
    simp only [run] at h
    cases h
  | error fault c =>
    simp only [run] at h
    cases h
    exact blames _ e c run

/-! The steps over bytes -/

theorem position : BlamesData Reader.position := by
  intro c e c' run
  cases run

theorem hasMore : BlamesData Reader.hasMore := by
  intro c e c' run
  cases run

theorem remaining : BlamesData Reader.remaining := by
  intro c e c' run
  cases run

theorem peek : BlamesData Reader.peek := by
  intro c e c' run
  unfold Reader.peek at run
  split at run
  · cases run
    rfl
  · cases run

theorem byte : BlamesData Reader.byte := by
  intro c e c' run
  unfold Reader.byte at run
  split at run
  · cases run
    rfl
  · cases run

theorem take (count : Nat) : BlamesData (Reader.take count) := by
  intro c e c' run
  unfold Reader.take at run
  dsimp only at run
  split at run
  · cases run
  · cases run
    rfl

theorem skip (count : Nat) : BlamesData (Reader.skip count) := (take count).bind fun _ => pure ()

theorem align (alignment : Nat) : BlamesData (Reader.align alignment) := position.bind fun _ => skip _

theorem u16 : BlamesData Reader.u16 := (take 2).bind fun _ => pure _

theorem u32 : BlamesData Reader.u32 := (take 4).bind fun _ => pure _

theorem u64 : BlamesData Reader.u64 := (take 8).bind fun _ => pure _

theorem column (wide : Bool) : BlamesData (Reader.column wide) := (take _).bind fun _ => pure _

theorem zeroTerminated : BlamesData Reader.zeroTerminated := by
  intro c e c' run
  unfold Reader.zeroTerminated at run
  dsimp only at run
  split at run
  · cases run
  · cases run
    rfl

theorem payload : BlamesData Reader.payload := by
  refine byte.bind fun first => ite (pure _) (ite (byte.bind fun _ => pure _) (ite ?_ (malformed _)))
  exact byte.bind fun _ => byte.bind fun _ => byte.bind fun _ => pure _

theorem compressed : BlamesData Reader.compressed := payload.bind fun _ => pure _

theorem compressedInt : BlamesData Reader.compressedInt := payload.bind fun _ => pure _

theorem untilEndFrom {r : Reader α} (blames : r.BlamesData) (done : List α) (fuel : Nat) :
    BlamesData (Reader.untilEndFrom r done fuel) := by
  induction fuel generalizing done with
  | zero => exact pure done.reverse
  | succ fuel ih => exact hasMore.bind fun more => ite (blames.bind fun a => ih (a :: done)) (pure done.reverse)

theorem untilEnd {r : Reader α} (blames : r.BlamesData) : BlamesData (Reader.untilEnd r) :=
  fun c => blames.untilEndFrom [] c.rest.length c

end BlamesData

end Reader

end CilWeaver
