import CilWeaver.Proofs.Steps

/-!
Two runs of writers side by side. They start in states that go together, and each step of the one is answered by a step
of the other, after which the states go together again.
-/

namespace CilWeaver

open Step

/-- Which states of two runs go together at a point of their way. Either the second run fails wherever the first one
    does, and only there, or there are failures at which it may stop before the first one. -/
structure Pairing (γ σ : Type) where
  Related : γ → σ → σ → Prop
  Faithful : Prop
  Stops : Error → σ → Prop
  never : Faithful → ∀ e s, ¬ Stops e s

variable {γ ε σ α α' β β' : Type}

/-- From states that go together the second run answers as `post` says where the first one answers. -/
structure Lockstep (p : Pairing γ σ) (g : γ) (w : EStateM Error σ α) (w' : EStateM Error σ α')
    (post : α → α' → γ → Prop) : Prop where
  answers : ∀ {d d' a s}, p.Related g d d' → w d = .ok a s → (∃ e s', w' d' = .error e s' ∧ p.Stops e s') ∨
    ∃ a' s' g', w' d' = .ok a' s' ∧ post a a' g' ∧ p.Related g' s s'
  failures : p.Faithful → ∀ {d d' e s}, p.Related g d d' → w d = .error e s → ∃ s', w' d' = .error e s'

/-- The second run does what the first one does, and the states go together as they did. -/
def Pairing.Same (p : Pairing γ σ) (w : EStateM Error σ α) : Prop := ∀ g, Lockstep p g w w fun a a' g' => a' = a ∧ g' = g

namespace Lockstep

variable {p : Pairing γ σ} {g : γ}

theorem pure {a : α} {a' : α'} {post : α → α' → γ → Prop} (holds : post a a' g) :
    Lockstep p g (Pure.pure a) (Pure.pure a') post := by
  refine ⟨fun related run => ?_, fun _ {_ _ _ _} _ run => by cases run⟩
  obtain ⟨rfl, rfl⟩ := pure_eq_ok.mp run
  exact .inr ⟨a', _, g, rfl, holds, related⟩

theorem throw (e : Error) {post : α → α' → γ → Prop} :
    Lockstep p g (MonadExcept.throw e : EStateM Error σ α) (MonadExcept.throw e : EStateM Error σ α') post := by
  refine ⟨fun _ run => absurd run throw_ne_ok, fun _ {_ d' _ _} _ run => ?_⟩
  cases run
  exact ⟨d', rfl⟩

theorem bind {x : EStateM Error σ α} {x' : EStateM Error σ α'} {f : α → EStateM Error σ β} {f' : α' → EStateM Error σ β'}
    {middle : α → α' → γ → Prop} {post : β → β' → γ → Prop} (first : Lockstep p g x x' middle)
    (second : ∀ a a' g', middle a a' g' → Lockstep p g' (f a) (f' a') post) :
    Lockstep p g (x >>= f) (x' >>= f') post := by
  constructor
  · intro d d' b s related run
    obtain ⟨a, s₁, one, two⟩ := bind_eq_ok.mp run
    rcases first.answers related one with ⟨e, s', stopped, stops⟩ | ⟨a', s₁', g', one', holds, related'⟩
    · exact .inl ⟨e, s', bind_of_error stopped f', stops⟩
    · rw [bind_of_ok one']
      exact (second a a' g' holds).answers related' two
  · intro faithful d d' e s related run
    rw [bind_apply] at run
    cases one : x d with
    | error e₁ s₁ =>
      rw [one] at run
      cases run
      obtain ⟨s', failed⟩ := first.failures faithful related one
      exact ⟨s', bind_of_error failed f'⟩
    | ok a s₁ =>
      rw [one] at run
      rcases first.answers related one with ⟨e', s', stopped, stops⟩ | ⟨a', s₁', g', one', holds, related'⟩
      · exact absurd stops (p.never faithful e' s')
      · rw [bind_of_ok one']
        exact (second a a' g' holds).failures faithful related' run

theorem mono {w : EStateM Error σ α} {w' : EStateM Error σ α'} {post post' : α → α' → γ → Prop}
    (steps : Lockstep p g w w' post) (weaker : ∀ a a' g', post a a' g' → post' a a' g') : Lockstep p g w w' post' := by
  refine ⟨fun related run => ?_, steps.failures⟩
  rcases steps.answers related run with stopped | ⟨a', s', g', run', holds, related'⟩
  · exact .inl stopped
  · exact .inr ⟨a', s', g', run', weaker _ _ _ holds, related'⟩

/-- A first step that both runs take. -/
theorem bind_same {x : EStateM Error σ α} {f : α → EStateM Error σ β} {f' : α → EStateM Error σ β'}
    {post : β → β' → γ → Prop} (same : p.Same x) (rest : ∀ a, Lockstep p g (f a) (f' a) post) :
    Lockstep p g (x >>= f) (x >>= f') post := by
  refine (same g).bind fun a a' g' holds => ?_
  obtain ⟨rfl, rfl⟩ := holds
  exact rest a'

theorem ite {c : Prop} [Decidable c] {x y : EStateM Error σ α} {x' y' : EStateM Error σ α'} {post : α → α' → γ → Prop}
    (yes : c → Lockstep p g x x' post) (no : ¬ c → Lockstep p g y y' post) :
    Lockstep p g (if c then x else y) (if c then x' else y') post := by
  by_cases h : c
  · rw [if_pos h, if_pos h]
    exact yes h
  · rw [if_neg h, if_neg h]
    exact no h

end Lockstep

/-- A step that does not see what `put` puts into a state: it does the same before and after. -/
def Blind (put : σ → σ) (w : EStateM ε σ α) : Prop :=
  ∀ d, w (put d) = match w d with
    | .ok a s => .ok a (put s)
    | .error e s => .error e (put s)

namespace Blind

variable {put : σ → σ}

theorem pure (a : α) : Blind put (Pure.pure a : EStateM ε σ α) := fun _ => rfl

theorem throw (e : ε) : Blind put (MonadExcept.throw e : EStateM ε σ α) := fun _ => rfl

/-- A step that reads only what `put` leaves as it is. -/
theorem get_bind {f : σ → EStateM ε σ α} (same : ∀ d, f (put d) = f d) (each : ∀ d, Blind put (f d)) :
    Blind put (get >>= f) := by
  intro d
  change f (put d) (put d) = _
  rw [same d]
  exact each d d

theorem update {f : σ → σ} (apart : ∀ d, f (put d) = put (f d)) : Blind put (modify f : EStateM ε σ Unit) := by
  intro d
  change EStateM.Result.ok () (f (put d)) = .ok () (put (f d))
  rw [apart d]

theorem bind {x : EStateM ε σ α} {f : α → EStateM ε σ β} (first : Blind put x) (second : ∀ a, Blind put (f a)) :
    Blind put (x >>= f) := by
  intro d
  rw [bind_apply, bind_apply, first d]
  cases x d with
  | ok a s => exact second a s
  | error e s => rfl

theorem mapM {f : α → EStateM ε σ β} {items : List α} (each : ∀ a, Blind put (f a)) : Blind put (items.mapM f) := by
  induction items with
  | nil => exact pure []
  | cons a items ih =>
    rw [List.mapM_cons]
    exact (each a).bind fun b => ih.bind fun bs => pure (b :: bs)

theorem answers {w : EStateM ε σ α} (blind : Blind put w) {d s : σ} {a : α} (run : w d = .ok a s) :
    w (put d) = .ok a (put s) := by
  rw [blind d, run]

theorem failures {w : EStateM ε σ α} (blind : Blind put w) {d s : σ} {e : ε} (run : w d = .error e s) :
    w (put d) = .error e (put s) := by
  rw [blind d, run]

end Blind

/-- Both outcomes are the same failure, or answers that go together. -/
inductive Outcome.Alike (related : α → β → Prop) : Result α → Result β → Prop
  | ok {a : α} {b : β} (holds : related a b) : Alike related (.ok a) (.ok b)
  | error (e : Error) : Alike related (.error e) (.error e)

namespace Outcome.Alike

theorem bind {related : α → β → Prop} {related' : α' → β' → Prop} {x : Result α} {y : Result β} {f : α → Result α'}
    {g : β → Result β'} (first : Alike related x y) (second : ∀ a b, related a b → Alike related' (f a) (g b)) :
    Alike related' (x >>= f) (y >>= g) := by
  cases first with
  | ok holds => exact second _ _ holds
  | error e => exact .error e

theorem ite {related : α → β → Prop} {c : Prop} [Decidable c] {x x' : Result α} {y y' : Result β}
    (yes : c → Alike related x y) (no : ¬ c → Alike related x' y') :
    Alike related (if c then x else x') (if c then y else y') := by
  by_cases h : c
  · rw [if_pos h, if_pos h]
    exact yes h
  · rw [if_neg h, if_neg h]
    exact no h

/-- The answer is that of the first outcome. -/
theorem answering {related : α → β → Prop} {x : Result α} {y : Result β} (alike : Alike related x y) :
    Alike (fun a b => x = .ok a ∧ related a b) x y := by
  cases alike with
  | ok holds => exact .ok ⟨rfl, holds⟩
  | error e => exact .error e

theorem mono {related wider : α → β → Prop} {x : Result α} {y : Result β} (alike : Alike related x y)
    (weaker : ∀ a b, related a b → wider a b) : Alike wider x y := by
  cases alike with
  | ok holds => exact .ok (weaker _ _ holds)
  | error e => exact .error e

theorem refl (x : Result α) : Alike Eq x x := by
  cases x with
  | ok a => exact .ok rfl
  | error e => exact .error e

end Outcome.Alike

end CilWeaver
