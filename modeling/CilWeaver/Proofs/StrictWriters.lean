import CilWeaver.Proofs.StrictParsers

/-!
Writing with operations that may have no result. A strict writer has a state, such as the heaps that it fills, and
agrees with a writer if it has the result of the writer from every state.
-/

namespace CilWeaver

variable {σ α β : Type}

/-- The answer of a step with the state behind it, or its failure. -/
def Step.outcome {ε : Type} : EStateM.Result ε σ α → Except ε (α × σ)
  | .ok a s => .ok (a, s)
  | .error e _ => .error e

namespace Partly

theorem bind_of_eq_some {value? : Option α} {a : α} (found : value? = some a) (f : α → Option β) :
    (value? >>= f) = f a := by
  subst found
  rfl

theorem mapM_eq_some {f : α → Option β} {g : α → β} {items : List α} (each : ∀ a ∈ items, f a = some (g a)) :
    items.mapM f = some (items.map g) := by
  induction items with
  | nil => rfl
  | cons a items ih =>
    rw [List.mapM_cons, each a List.mem_cons_self, ih fun b member => each b (List.mem_cons_of_mem a member)]
    rfl

theorem narrow_of_nonneg {bits : Nat} {n : Int} (low : 0 ≤ n) (high : n < 2 ^ bits) : narrow bits n = some n.toNat :=
  if_pos ⟨low, high⟩

/-- The number as a signed number of so many bits. -/
def narrowSigned (bits : Nat) (n : Int) : Option Int := if -2 ^ (bits - 1) ≤ n ∧ n < 2 ^ (bits - 1) then some n else none

theorem narrowSigned_of_fits {bits : Nat} {n : Int} (low : -2 ^ (bits - 1) ≤ n) (high : n < 2 ^ (bits - 1)) :
    narrowSigned bits n = some n := if_pos ⟨low, high⟩

theorem fits_of_narrowSigned {bits : Nat} {n m : Int} (h : narrowSigned bits n = some m) :
    -2 ^ (bits - 1) ≤ n ∧ n < 2 ^ (bits - 1) := by
  unfold narrowSigned at h
  split at h
  · assumption
  · cases h

end Partly

abbrev StrictWriter (σ α : Type) := StateT σ Partly α

namespace StrictWriter

def need (value? : Option α) : StrictWriter σ α := StateT.lift (Partly.need value?)

/-- A writer that has a result from every state. -/
def of (w : EStateM Error σ α) : StrictWriter σ α := fun s => Partly.of (Step.outcome (w s))

theorem bind_apply (x : StrictWriter σ α) (f : α → StrictWriter σ β) (s : σ) :
    (x >>= f) s = x s >>= fun found => f found.1 found.2 := rfl

/-- From every state the strict writer has the result of the writer. -/
def Agrees (x : StrictWriter σ α) (w : EStateM Error σ α) : Prop := ∀ s, Partly.Gives (x s) (Step.outcome (w s))

namespace Agrees

variable {x x' : StrictWriter σ α} {w w' : EStateM Error σ α}

theorem of (w : EStateM Error σ α) : Agrees (StrictWriter.of w) w := fun _ => .of _

theorem pure (a : α) : Agrees (Pure.pure a : StrictWriter σ α) (Pure.pure a) := fun _ => rfl

theorem throw (e : Error) : Agrees (MonadExcept.throw e : StrictWriter σ α) (MonadExcept.throw e) := fun _ => rfl

/-- What is done with an answer needs to agree if the writer can answer it. -/
theorem bind_of_answer {f : α → StrictWriter σ β} {g : α → EStateM Error σ β} (first : Agrees x w)
    (second : ∀ a s s', w s = .ok a s' → Agrees (f a) (g a)) : Agrees (x >>= f) (w >>= g) := by
  intro s
  have one := first s
  rw [bind_apply, Step.bind_apply]
  cases run : w s with
  | ok a s' =>
    rw [run] at one
    exact one.bind_ok (second a s s' run s')
  | error e s' =>
    rw [run] at one
    exact one.bind_error

theorem bind {f : α → StrictWriter σ β} {g : α → EStateM Error σ β} (first : Agrees x w) (second : ∀ a, Agrees (f a) (g a)) :
    Agrees (x >>= f) (w >>= g) := first.bind_of_answer fun a _ _ _ => second a

theorem need {value? : Option α} {a : α} {f : α → StrictWriter σ β} {w : EStateM Error σ β} (found : value? = some a)
    (rest : Agrees (f a) w) : Agrees (StrictWriter.need value? >>= f) w := by
  subst found
  exact rest

theorem ite {condition : Prop} [Decidable condition] (first : condition → Agrees x w) (second : ¬ condition → Agrees x' w') :
    Agrees (if condition then x else x') (if condition then w else w') := by
  by_cases holds : condition
  · rw [if_pos holds, if_pos holds]
    exact first holds
  · rw [if_neg holds, if_neg holds]
    exact second holds

theorem mapM {f : α → StrictWriter σ β} {g : α → EStateM Error σ β} {items : List α}
    (each : ∀ a ∈ items, Agrees (f a) (g a)) : Agrees (items.mapM f) (items.mapM g) := by
  induction items with
  | nil =>
    rw [List.mapM_nil, List.mapM_nil]
    exact pure []
  | cons a items ih =>
    rw [List.mapM_cons, List.mapM_cons]
    have others := ih fun b member => each b (List.mem_cons_of_mem a member)
    exact (each a List.mem_cons_self).bind fun b => others.bind fun bs => pure (b :: bs)

end Agrees

theorem agrees_get : Agrees (get : StrictWriter σ σ) get := fun _ => rfl

theorem agrees_set (s : σ) : Agrees (set s : StrictWriter σ PUnit) (set s) := fun _ => rfl

theorem agrees_modify (f : σ → σ) : Agrees (modify f : StrictWriter σ PUnit) (modify f) := fun _ => rfl

/-- The strict writer answers only if this holds. -/
def Presumes (x : StrictWriter σ α) (p : Prop) : Prop := ∀ s found, Partly.Gives (x s) (.ok found) → p

namespace Presumes

variable {x : StrictWriter σ α} {f : α → StrictWriter σ β} {p : Prop}

theorem bind_left (first : Presumes x p) : Presumes (x >>= f) p := by
  intro s found gives
  rw [bind_apply, Partly.gives_bind_iff] at gives
  rcases gives with ⟨a, one, -⟩ | ⟨e, -, failed⟩
  · exact first s a one
  · cases failed

theorem bind_right (second : ∀ a, Presumes (f a) p) : Presumes (x >>= f) p := by
  intro s found gives
  rw [bind_apply, Partly.gives_bind_iff] at gives
  rcases gives with ⟨a, -, two⟩ | ⟨e, -, failed⟩
  · exact second a.1 a.2 found two
  · cases failed

theorem need_bind {value? : Option α} {f : α → StrictWriter σ β} (present : ∀ a, value? = some a → Presumes (f a) p) :
    Presumes (StrictWriter.need value? >>= f) p := by
  intro s found gives
  cases value? with
  | none => cases gives
  | some a => exact present a rfl s found gives

theorem ite {x x' : StrictWriter σ α} {condition : Prop} [Decidable condition] (first : Presumes x p)
    (second : Presumes x' p) : Presumes (if condition then x else x') p := by
  split
  · exact first
  · exact second

theorem mapM {f : α → StrictWriter σ β} {items : List α} {a : α} (member : a ∈ items) (each : Presumes (f a) p) :
    Presumes (items.mapM f) p := by
  induction items with
  | nil => cases member
  | cons b items ih =>
    rw [List.mapM_cons]
    rcases List.mem_cons.mp member with rfl | member
    · exact each.bind_left
    · exact .bind_right fun _ => (ih member).bind_left

end Presumes

end StrictWriter

end CilWeaver
