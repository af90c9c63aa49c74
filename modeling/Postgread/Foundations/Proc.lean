import Mathlib.Tactic.Common

/-!
# Procedures on a mutable state that may fail

A `Proc σ ε α` updates a state `σ` and ends with a value or an error. The state reached so far is
kept in both cases, as it is for a method with a mutable receiver that returns a result.

`Halt` lists the ways an asynchronous procedure can end without a value. `bind_eq_ok` and
`bind_eq_error` take a sequence of procedures apart; no proof below this file unfolds `bind`.
-/

universe u

/-- A procedure on the state `σ` that ends with a value or an error, keeping the state reached. -/
def Proc (σ ε α : Type u) : Type u :=
  σ → Except ε α × σ

/-- How an asynchronous procedure can end without a value. -/
inductive Halt (ε : Type u) where
  /-- It returned an error. -/
  | error (e : ε)
  /-- It aborted on a failed assertion, an unwrapped error or an overflow check. -/
  | panic
  /-- It is suspended on an event that never comes. -/
  | waiting
  /-- It reached a branch that is declared unreachable. -/
  | unreachable
  /-- Its model ran out of fuel, which no run of the program itself does. -/
  | outOfFuel
deriving DecidableEq, Repr

/-- Rename the error of a halt. -/
def Halt.map {ε ε' : Type u} (f : ε → ε') : Halt ε → Halt ε'
  | .error e => .error (f e)
  | .panic => .panic
  | .waiting => .waiting
  | .unreachable => .unreachable
  | .outOfFuel => .outOfFuel

namespace Proc

variable {σ ε ε' α β γ : Type u}

instance : Monad (Proc σ ε) where
  pure a := fun s => (.ok a, s)
  bind x f := fun s =>
    match x s with
    | (.ok a, s') => f a s'
    | (.error e, s') => (.error e, s')

/-- End with an error, leaving the state as it is. -/
def fail (e : ε) : Proc σ ε α :=
  fun s => (.error e, s)

/-- Change the state. -/
def modify (f : σ → σ) : Proc σ ε PUnit :=
  fun s => (.ok ⟨⟩, f s)

/-- Rename the error of a procedure. -/
def mapError (f : ε → ε') (x : Proc σ ε α) : Proc σ ε' α :=
  fun s => ((x s).1.mapError f, (x s).2)

/-- A pure procedure returns its value. -/
@[simp] theorem pure_apply (a : α) (s : σ) : (pure a : Proc σ ε α) s = (.ok a, s) := rfl

/-- A failure leaves the state as it is. -/
@[simp] theorem fail_apply (e : ε) (s : σ) : (fail e : Proc σ ε α) s = (.error e, s) := rfl

/-- The second procedure goes on from the result and the state of the first. -/
theorem bind_of_ok {x : Proc σ ε α} {f : α → Proc σ ε β} {s s' : σ} {a : α}
    (h : x s = (.ok a, s')) : (x >>= f) s = f a s' := by
  simp only [bind, h]

/-- After a failure the second procedure is not run. -/
theorem bind_of_error {x : Proc σ ε α} {f : α → Proc σ ε β} {s s' : σ} {e : ε}
    (h : x s = (.error e, s')) : (x >>= f) s = (.error e, s') := by
  simp only [bind, h]

/-- A value is passed on at once. -/
@[simp] theorem pure_bind_apply (a : α) (f : α → Proc σ ε β) (s : σ) :
    (pure a >>= f) s = f a s := rfl

/-- A change of the state is seen by what comes next. -/
@[simp] theorem modify_bind_apply (g : σ → σ) (f : PUnit → Proc σ ε β) (s : σ) :
    (modify g >>= f) s = f ⟨⟩ (g s) := rfl

/-- Two procedures succeed if the first does and then the second. -/
theorem bind_eq_ok {x : Proc σ ε α} {f : α → Proc σ ε β} {s s'' : σ} {b : β} :
    (x >>= f) s = (.ok b, s'') ↔ ∃ a s', x s = (.ok a, s') ∧ f a s' = (.ok b, s'') := by
  rcases hx : x s with ⟨a | a, s'⟩
  · simp [bind_of_error hx]
  · simp [bind_of_ok hx]

/-- They fail if the first does, or the second after it. -/
theorem bind_eq_error {x : Proc σ ε α} {f : α → Proc σ ε β} {s s'' : σ} {e : ε} :
    (x >>= f) s = (.error e, s'') ↔
      x s = (.error e, s'') ∨ ∃ a s', x s = (.ok a, s') ∧ f a s' = (.error e, s'') := by
  rcases hx : x s with ⟨a | a, s'⟩
  · simp [bind_of_error hx]
  · simp [bind_of_ok hx]

instance : LawfulMonad (Proc σ ε) := by
  refine LawfulMonad.mk' _ ?_ (fun _ _ => rfl) ?_
  · intro α x
    funext s
    show (x >>= fun a => pure a) s = x s
    rcases hx : x s with ⟨a | a, s'⟩
    · exact bind_of_error hx
    · exact bind_of_ok hx
  · intro α β γ x f g
    funext s
    rcases hx : x s with ⟨a | a, s'⟩
    · rw [bind_of_error hx, bind_of_error (bind_of_error hx)]
    · rw [bind_of_ok hx]
      rcases hf : f a s' with ⟨b | b, s''⟩
      · rw [bind_of_error ((bind_of_ok hx).trans hf), bind_of_error hf]
      · rw [bind_of_ok ((bind_of_ok hx).trans hf), bind_of_ok hf]

/-- A renamed result is that of the procedure. -/
theorem map_eq_ok {x : Proc σ ε α} {f : α → β} {s s' : σ} {b : β} :
    (f <$> x) s = (.ok b, s') ↔ ∃ a, x s = (.ok a, s') ∧ f a = b := by
  rw [← bind_pure_comp, bind_eq_ok]
  simp only [pure_apply, Prod.mk.injEq, Except.ok.injEq]
  constructor
  · rintro ⟨a, t, hx, hb, rfl⟩; exact ⟨a, hx, hb⟩
  · rintro ⟨a, hx, hb⟩; exact ⟨a, s', hx, hb, rfl⟩

/-- An error is not touched when results are renamed. -/
theorem map_eq_error {x : Proc σ ε α} {f : α → β} {s s' : σ} {e : ε} :
    (f <$> x) s = (.error e, s') ↔ x s = (.error e, s') := by
  rw [← bind_pure_comp, bind_eq_error]
  simp

/-- A result is not touched when errors are renamed. -/
theorem mapError_eq_ok {x : Proc σ ε α} {f : ε → ε'} {s s' : σ} {a : α} :
    (x.mapError f) s = (.ok a, s') ↔ x s = (.ok a, s') := by
  rcases hx : x s with ⟨b | b, t⟩ <;> simp [mapError, hx, Except.mapError]

/-- A renamed error is that of the procedure. -/
theorem mapError_eq_error {x : Proc σ ε α} {f : ε → ε'} {s s' : σ} {e : ε'} :
    (x.mapError f) s = (.error e, s') ↔ ∃ e₀, x s = (.error e₀, s') ∧ f e₀ = e := by
  rcases hx : x s with ⟨b | b, t⟩
  · simp only [mapError, hx, Except.mapError, Prod.mk.injEq, Except.error.injEq]
    constructor
    · rintro ⟨he, rfl⟩; exact ⟨b, ⟨rfl, rfl⟩, he⟩
    · rintro ⟨e₀, ⟨rfl, rfl⟩, he⟩; exact ⟨he, rfl⟩
  · simp [mapError, hx, Except.mapError]

/-! ## Invariants of the state -/

/-- The procedure keeps a property of the state, whatever it returns. -/
def Keeps (P : σ → Prop) (x : Proc σ ε α) : Prop :=
  ∀ s, P s → P (x s).2

namespace Keeps

variable {P : σ → Prop}

/-- What does not touch the state keeps everything. -/
theorem pure (a : α) : Keeps P (Pure.pure a : Proc σ ε α) := fun _ h => h

/-- So does a failure. -/
theorem fail (e : ε) : Keeps P (Proc.fail e : Proc σ ε α) := fun _ h => h

/-- What both parts keep is kept. -/
theorem bind {x : Proc σ ε α} {f : α → Proc σ ε β} (hx : Keeps P x) (hf : ∀ a, Keeps P (f a)) :
    Keeps P (x >>= f) := by
  intro s hs
  have hs' := hx s hs
  rcases h : x s with ⟨e | a, s'⟩
  · rw [h] at hs'
    rw [bind_of_error h]
    exact hs'
  · rw [h] at hs'
    rw [bind_of_ok h]
    exact hf a s' hs'

/-- Renaming the result keeps what the procedure keeps. -/
theorem map {x : Proc σ ε α} (f : α → β) (hx : Keeps P x) : Keeps P (f <$> x) := by
  rw [← bind_pure_comp]
  exact hx.bind fun _ => pure _

end Keeps

/-! ## Panics -/

/-- The procedure panics in a state. -/
def Panics (x : Proc σ (Halt ε) α) (s : σ) : Prop := (x s).1 = .error .panic

/-- To panic is to fail with a panic, in some state. -/
theorem panics_iff {x : Proc σ (Halt ε) α} {s : σ} :
    Panics x s ↔ ∃ s', x s = (.error .panic, s') :=
  ⟨fun h => ⟨_, Prod.ext h rfl⟩, fun ⟨_, h⟩ => congrArg Prod.fst h⟩

/-- A pure procedure does not panic. -/
@[simp] theorem panics_pure (a : α) (s : σ) : ¬ Panics (pure a : Proc σ (Halt ε) α) s := by
  rintro ⟨⟩

/-- A failure is a panic only if its halt is. -/
@[simp] theorem panics_fail (e : Halt ε) (s : σ) :
    Panics (fail e : Proc σ (Halt ε) α) s ↔ e = .panic := by
  simp [Panics]

/-- A sequence panics in its first part, or in its second part after the first. -/
theorem panics_bind {x : Proc σ (Halt ε) α} {f : α → Proc σ (Halt ε) β} {s : σ} :
    Panics (x >>= f) s ↔ Panics x s ∨ ∃ a s', x s = (.ok a, s') ∧ Panics (f a) s' := by
  rcases hx : x s with ⟨e | a, s'⟩
  · simp [Panics, bind_of_error hx, hx]
  · simp [Panics, bind_of_ok hx, hx]

/-- Renaming the result adds no panic. -/
@[simp] theorem panics_map {x : Proc σ (Halt ε) α} {f : α → β} {s : σ} :
    Panics (f <$> x) s ↔ Panics x s := by
  rw [← bind_pure_comp, panics_bind]
  simp

/-- Renaming errors neither adds nor hides a panic. -/
@[simp] theorem panics_mapError {x : Proc σ (Halt ε) α} {f : ε → ε'} {s : σ} :
    Panics (x.mapError (Halt.map f)) s ↔ Panics x s := by
  rw [Panics, Panics, mapError]
  rcases (x s).1 with (e | _ | _ | _ | _) | a
  · exact iff_of_false (by rintro ⟨⟩) (by rintro ⟨⟩)
  · exact iff_of_true rfl rfl
  · exact iff_of_false (by rintro ⟨⟩) (by rintro ⟨⟩)
  · exact iff_of_false (by rintro ⟨⟩) (by rintro ⟨⟩)
  · exact iff_of_false (by rintro ⟨⟩) (by rintro ⟨⟩)
  · exact iff_of_false (by rintro ⟨⟩) (by rintro ⟨⟩)

/-! ## Two runs side by side -/

/-- From related states the procedure returns the same and leaves related states. -/
def Respects (R : σ → σ → Prop) (x : Proc σ ε α) : Prop :=
  ∀ s t, R s t → (x t).1 = (x s).1 ∧ R (x s).2 (x t).2

namespace Respects

variable {R : σ → σ → Prop}

/-- What does not touch the state respects every relation. -/
theorem pure (a : α) : Respects R (Pure.pure a : Proc σ ε α) := fun _ _ h => ⟨rfl, h⟩

/-- So does a failure. -/
theorem fail (e : ε) : Respects R (Proc.fail e : Proc σ ε α) := fun _ _ h => ⟨rfl, h⟩

/-- Parts that respect a relation respect it one after the other. -/
theorem bind {x : Proc σ ε α} {f : α → Proc σ ε β} (hx : Respects R x)
    (hf : ∀ a, Respects R (f a)) : Respects R (x >>= f) := by
  intro s t hst
  obtain ⟨hresult, hst'⟩ := hx s t hst
  rcases h : x s with ⟨e | a, s'⟩
  all_goals
    rcases h' : x t with ⟨r, t'⟩
    rw [h, h'] at hresult hst'
    obtain rfl := hresult
  · rw [bind_of_error h, bind_of_error h']
    exact ⟨rfl, hst'⟩
  · rw [bind_of_ok h, bind_of_ok h']
    exact hf a s' t' hst'

/-- Renaming the result respects what the procedure respects. -/
theorem map {x : Proc σ ε α} (f : α → β) (hx : Respects R x) : Respects R (f <$> x) := by
  rw [← bind_pure_comp]
  exact hx.bind fun _ => pure _

/-- So does renaming the errors. -/
theorem mapError {x : Proc σ ε α} (f : ε → ε') (hx : Respects R x) :
    Respects R (x.mapError f) := by
  intro s t hst
  obtain ⟨hresult, hst'⟩ := hx s t hst
  exact ⟨congrArg (Except.mapError f) hresult, hst'⟩

end Respects

/-- As `Respects`, but where the first run ends with an error the second may end with another one
that `E` relates to it. -/
def RespectsUpTo (E : ε → ε → Prop) (R : σ → σ → Prop) (x : Proc σ ε α) : Prop :=
  ∀ s t, R s t → ((x t).1 = (x s).1 ∨
    ∃ e e', (x s).1 = .error e ∧ (x t).1 = .error e' ∧ E e e') ∧ R (x s).2 (x t).2

/-- What respects a relation does so up to any errors. -/
theorem Respects.upTo {R : σ → σ → Prop} {x : Proc σ ε α} (hx : Respects R x) (E : ε → ε → Prop) :
    RespectsUpTo E R x :=
  fun s t hst => ⟨.inl (hx s t hst).1, (hx s t hst).2⟩

namespace RespectsUpTo

variable {E : ε → ε → Prop} {R : σ → σ → Prop}

/-- Parts that respect a relation up to some errors do so one after the other. -/
theorem bind {x : Proc σ ε α} {f : α → Proc σ ε β} (hx : RespectsUpTo E R x)
    (hf : ∀ a, RespectsUpTo E R (f a)) : RespectsUpTo E R (x >>= f) := by
  intro s t hst
  obtain ⟨hresult, hst'⟩ := hx s t hst
  rcases h : x s with ⟨e | a, s'⟩
  all_goals
    rcases h' : x t with ⟨r', t'⟩
    rw [h, h'] at hresult hst'
  · rcases hresult with rfl | ⟨e₁, e', he, rfl, hE⟩
    · rw [bind_of_error h, bind_of_error h']
      exact ⟨.inl rfl, hst'⟩
    · rw [bind_of_error h, bind_of_error h']
      exact ⟨.inr ⟨e, e', rfl, rfl, Except.error.inj he ▸ hE⟩, hst'⟩
  · rcases hresult with rfl | ⟨e₁, e', he, -⟩
    · rw [bind_of_ok h, bind_of_ok h']
      exact hf a s' t' hst'
    · cases he

/-- Renaming the result respects what the procedure respects, up to the same errors. -/
theorem map {x : Proc σ ε α} (f : α → β) (hx : RespectsUpTo E R x) :
    RespectsUpTo E R (f <$> x) := by
  rw [← bind_pure_comp]
  exact hx.bind fun _ => (Respects.pure _).upTo E

end RespectsUpTo

end Proc
