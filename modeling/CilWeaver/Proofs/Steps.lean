import CilWeaver.Error
import Mathlib

/-!
What it means that a sequence of steps ends well, with and without a state.
-/

namespace CilWeaver

variable {α β γ δ ε σ : Type}

theorem forall₂_of_mem {R : α → β → Prop} {as : List α} {bs : List β} (h : List.Forall₂ R as bs) {a : α}
    (member : a ∈ as) : ∃ b ∈ bs, R a b := by
  induction h with
  | nil => exact absurd member List.not_mem_nil
  | cons first others ih =>
    rcases List.mem_cons.mp member with rfl | member
    · exact ⟨_, List.mem_cons_self, first⟩
    · obtain ⟨b, hb, related⟩ := ih member
      exact ⟨b, List.mem_cons_of_mem _ hb, related⟩

theorem map_eq_map {R : α → β → Prop} {f : α → γ} {g : β → γ} {as : List α} {bs : List β} (all : List.Forall₂ R as bs)
    (each : ∀ a b, R a b → f a = g b) : as.map f = bs.map g := by
  induction all with
  | nil => rfl
  | cons first others ih => rw [List.map_cons, List.map_cons, each _ _ first, ih]

theorem forall₂_flatMap {R : α → β → Prop} {S : γ → δ → Prop} {f : α → List γ} {g : β → List δ} {as : List α}
    {bs : List β} (all : List.Forall₂ R as bs) (each : ∀ a b, R a b → List.Forall₂ S (f a) (g b)) :
    List.Forall₂ S (as.flatMap f) (bs.flatMap g) := by
  induction all with
  | nil => exact .nil
  | cons first others ih =>
    rw [List.flatMap_cons, List.flatMap_cons]
    exact List.rel_append (each _ _ first) ih

/-- Pieces of one size, back to back. -/
theorem length_flatMap_of_size {f : α → List β} {size : Nat} (each : ∀ a, (f a).length = size) (items : List α) :
    (items.flatMap f).length = size * items.length := by
  induction items with
  | nil => rfl
  | cons a items ih => rw [List.flatMap_cons, List.length_append, each, ih, List.length_cons, Nat.mul_succ, Nat.add_comm]

namespace Step

theorem bind_apply (x : EStateM ε σ α) (f : α → EStateM ε σ β) (s : σ) :
    (x >>= f) s = match x s with
      | .ok a s => f a s
      | .error e s => .error e s := by
  change EStateM.bind x f s = _
  unfold EStateM.bind
  cases x s <;> rfl

theorem map_apply (f : α → β) (x : EStateM ε σ α) (s : σ) :
    (f <$> x) s = match x s with
      | .ok a s => .ok (f a) s
      | .error e s => .error e s := by
  change EStateM.map f x s = _
  unfold EStateM.map
  cases x s <;> rfl

theorem pure_apply (a : α) (s : σ) : (pure a : EStateM ε σ α) s = .ok a s := rfl

theorem bind_of_ok {x : EStateM ε σ α} {s s' : σ} {a : α} (h : x s = .ok a s')
    (f : α → EStateM ε σ β) : (x >>= f) s = f a s' := by
  rw [bind_apply, h]

theorem bind_of_error {x : EStateM ε σ α} {s s' : σ} {e : ε} (h : x s = .error e s')
    (f : α → EStateM ε σ β) : (x >>= f) s = .error e s' := by
  rw [bind_apply, h]

/-- Two steps that end well have a middle. -/
theorem bind_eq_ok {x : EStateM ε σ α} {f : α → EStateM ε σ β} {s s'' : σ} {b : β} :
    (x >>= f) s = .ok b s'' ↔ ∃ a s', x s = .ok a s' ∧ f a s' = .ok b s'' := by
  rw [bind_apply]
  constructor
  · intro h
    cases hx : x s with
    | ok a s' => rw [hx] at h; exact ⟨a, s', rfl, h⟩
    | error e s' => rw [hx] at h; cases h
  · rintro ⟨a, s', hx, hf⟩
    rw [hx]
    exact hf

theorem pure_eq_ok {a b : α} {s s' : σ} :
    (pure a : EStateM ε σ α) s = .ok b s' ↔ a = b ∧ s = s' := by
  rw [pure_apply]
  constructor
  · intro h
    cases h
    exact ⟨rfl, rfl⟩
  · rintro ⟨rfl, rfl⟩
    rfl

theorem throw_ne_ok {e : ε} {a : α} {s s' : σ} : (throw e : EStateM ε σ α) s ≠ .ok a s' := by
  intro h
  cases h

def answer? : EStateM.Result ε σ α → Option α
  | .ok a _ => some a
  | .error _ _ => none

/-- A check of the answer of a step without a state, which can be computed. -/
theorem exists_of_any {result : EStateM.Result ε Unit α} {p : α → Bool} (passed : (answer? result).any p = true) :
    ∃ a, result = .ok a () ∧ p a = true := by
  cases result with
  | ok a s => exact ⟨a, rfl, passed⟩
  | error e s => cases passed

end Step

namespace Outcome

theorem ok_bind (a : α) (f : α → Except ε β) : (Except.ok a >>= f) = f a := rfl

/-- A check that holds wherever it is made changes nothing. -/
theorem guard_bind {c : Prop} [Decidable c] {x : Except ε Unit} {k : Except ε α} (holds : c → x = .ok ()) :
    (if c then x >>= fun _ => k else k) = k := by
  split
  · rename_i made
    rw [holds made, ok_bind]
  · rfl

theorem bind_eq_ok {x : Except ε α} {f : α → Except ε β} {b : β} :
    (x >>= f) = .ok b ↔ ∃ a, x = .ok a ∧ f a = .ok b := by
  cases x with
  | ok a =>
    constructor
    · intro h
      exact ⟨a, rfl, h⟩
    · rintro ⟨a', h, hf⟩
      cases h
      exact hf
  | error e =>
    constructor
    · intro h
      cases h
    · rintro ⟨a, h, -⟩
      cases h

theorem map_eq_ok {f : α → β} {x : Except ε α} {b : β} :
    x.map f = .ok b ↔ ∃ a, x = .ok a ∧ f a = b := by
  cases x with
  | ok a => simp [Except.map]
  | error e => simp [Except.map]

theorem pure_eq_ok {a b : α} : (pure a : Except ε α) = .ok b ↔ a = b := by
  constructor
  · intro h
    cases h
    rfl
  · rintro rfl
    rfl

/-- All items of a list end well, and the results stand in the same order. -/
theorem mapM_eq_ok {f : α → Except ε β} {items : List α} {results : List β} :
    items.mapM f = .ok results ↔ List.Forall₂ (fun a b => f a = .ok b) items results := by
  induction items generalizing results with
  | nil =>
    rw [List.mapM_nil, pure_eq_ok, List.forall₂_nil_left_iff]
    exact eq_comm
  | cons a items ih =>
    rw [List.mapM_cons, bind_eq_ok]
    constructor
    · rintro ⟨b, hb, others⟩
      obtain ⟨bs, hbs, last⟩ := bind_eq_ok.mp others
      rw [← pure_eq_ok.mp last]
      exact .cons hb (ih.mp hbs)
    · intro all
      cases all with
      | cons first others =>
        exact ⟨_, first, bind_eq_ok.mpr ⟨_, ih.mpr others, rfl⟩⟩

/-- A last step on each result of a loop can be made in the loop. -/
theorem map_mapM (f : α → Except ε β) (g : β → γ) (items : List α) :
    (items.mapM f).map (List.map g) = items.mapM fun a => (f a).map g := by
  induction items with
  | nil => rfl
  | cons a items ih =>
    rw [List.mapM_cons, List.mapM_cons, ← ih]
    cases f a with
    | error e => rfl
    | ok b => cases items.mapM f <;> rfl

/-- A check of an answer, which can be computed. -/
theorem exists_of_any {x : Except ε α} {p : α → Bool} (passed : x.toOption.any p = true) :
    ∃ a, x = .ok a ∧ p a = true := by
  cases x with
  | ok a => exact ⟨a, rfl, passed⟩
  | error e => cases passed

/-- A check of all items of a list. -/
theorem forM_eq_ok {f : α → Except ε Unit} {items : List α} :
    items.forM f = .ok () ↔ ∀ a ∈ items, f a = .ok () := by
  induction items with
  | nil =>
    rw [List.forM]
    exact ⟨fun _ a member => absurd member List.not_mem_nil, fun _ => rfl⟩
  | cons a items ih =>
    rw [List.forM, bind_eq_ok, List.forall_mem_cons, ← ih]
    exact ⟨fun ⟨_, first, others⟩ => ⟨first, others⟩, fun ⟨first, others⟩ => ⟨(), first, others⟩⟩

end Outcome

end CilWeaver
