import Postgread.Foundations.Proc
import Mathlib.Logic.Relation

/-!
# Repeating a step

A `step` of a machine ends the run, fails, or names the phase to go on with. `Reaches` relates the
phases and states of a run, `Ends` its start to its result; a result is unique. `iterate` runs the
machine with fuel, and enough fuel for a measure that every step lowers is enough to end.
-/

universe u

variable {φ σ ε : Type u}

/-- A step that goes on. -/
def StepsTo (step : φ → Proc σ (Halt ε) (Option φ)) (x y : φ × σ) : Prop :=
  step x.1 x.2 = (.ok (some y.1), y.2)

/-- Any number of steps that go on. -/
def Reaches (step : φ → Proc σ (Halt ε) (Option φ)) : φ × σ → φ × σ → Prop :=
  Relation.ReflTransGen (StepsTo step)

/-- The result of a run and the state that it leaves. -/
inductive Ends (step : φ → Proc σ (Halt ε) (Option φ)) :
    φ × σ → Except (Halt ε) PUnit.{u + 1} → σ → Prop where
  | done {x : φ × σ} {s : σ} (h : step x.1 x.2 = (.ok none, s)) : Ends step x (.ok ⟨⟩) s
  | halt {x : φ × σ} {s : σ} {e : Halt ε} (h : step x.1 x.2 = (.error e, s)) :
      Ends step x (.error e) s
  | next {x y : φ × σ} {s : σ} {r : Except (Halt ε) PUnit.{u + 1}} (h : StepsTo step x y)
      (hy : Ends step y r s) : Ends step x r s

/-- At most `fuel` steps. -/
def iterate (step : φ → Proc σ (Halt ε) (Option φ)) : ℕ → φ → Proc σ (Halt ε) PUnit.{u + 1}
  | 0, _ => Proc.fail .outOfFuel
  | fuel + 1, a => do
    match ← step a with
    | some b => iterate step fuel b
    | none => pure ⟨⟩

/-- So many steps, or all steps that go on if there are fewer. -/
def walk (step : φ → Proc σ (Halt ε) (Option φ)) : ℕ → φ × σ → φ × σ
  | 0, x => x
  | n + 1, x =>
    match step x.1 x.2 with
    | (.ok (some b), s) => walk step n (b, s)
    | _ => x

section

variable {step : φ → Proc σ (Halt ε) (Option φ)} {x y : φ × σ}

/-- The state after a step that is known to go on. -/
theorem stepsTo_of_fst {a b : φ} {s : σ} (h : (step a s).1 = .ok (some b)) :
    StepsTo step (a, s) (b, (step a s).2) :=
  Prod.ext h rfl

/-- The phase that a walk leads to can be found by evaluation. -/
theorem reaches_walk {n : ℕ} {a : φ} (h : (walk step n x).1 = a) :
    Reaches step x (a, (walk step n x).2) := by
  subst h
  induction n generalizing x with
  | zero => exact .refl
  | succ n ih =>
    rw [walk]
    split
    · rename_i b s hstep
      exact .head (show StepsTo step x (b, s) from hstep) ih
    · exact .refl

/-- A step lemma holds of whole runs. -/
theorem Reaches.preserves {P : φ × σ → Prop}
    (hstep : ∀ x y, StepsTo step x y → P x → P y) (h : Reaches step x y) (hx : P x) : P y := by
  induction h with
  | refl => exact hx
  | tail _ hlast ih => exact hstep _ _ hlast ih

/-- A run can be entered earlier, along the steps that lead to its first state. -/
theorem Ends.of_reaches {r : Except (Halt ε) PUnit.{u + 1}} {s : σ} (h : Reaches step x y)
    (hy : Ends step y r s) : Ends step x r s := by
  induction h using Relation.ReflTransGen.head_induction_on with
  | refl => exact hy
  | head hfirst _ ih => exact .next hfirst ih

/-- Every run has a last step. -/
theorem Ends.exists_last {r : Except (Halt ε) PUnit.{u + 1}} {s : σ} (h : Ends step x r s) :
    ∃ y, Reaches step x y ∧ ((r = .ok ⟨⟩ ∧ step y.1 y.2 = (.ok none, s)) ∨
      ∃ e, r = .error e ∧ step y.1 y.2 = (.error e, s)) := by
  induction h with
  | @done x s h => exact ⟨x, .refl, .inl ⟨rfl, h⟩⟩
  | @halt x s e h => exact ⟨x, .refl, .inr ⟨e, rfl, h⟩⟩
  | next h _ ih =>
    obtain ⟨z, hreach, hlast⟩ := ih
    exact ⟨z, .head h hreach, hlast⟩

/-- What comes after the first step of a run. -/
theorem Ends.tail {r : Except (Halt ε) PUnit} {s : σ} (h : Ends step x r s)
    (hfirst : StepsTo step x y) : Ends step y r s := by
  cases h with
  | done h => rw [StepsTo, h] at hfirst; simp at hfirst
  | halt h => rw [StepsTo, h] at hfirst; simp at hfirst
  | @next _ z _ _ h hz =>
    rw [StepsTo] at h
    rw [StepsTo, h] at hfirst
    obtain ⟨hfst, hsnd⟩ : z.1 = y.1 ∧ z.2 = y.2 := by simpa using hfirst
    rwa [show z = y from Prod.ext hfst hsnd] at hz

/-- What comes after the first steps of a run. -/
theorem Ends.drop {r : Except (Halt ε) PUnit} {s : σ} (h : Ends step x r s)
    (hreach : Reaches step x y) : Ends step y r s := by
  induction hreach with
  | refl => exact h
  | tail _ hlast ih => exact ih.tail hlast

/-- A run has only one result. -/
theorem Ends.unique {r r' : Except (Halt ε) PUnit.{u + 1}} {s s' : σ} (h : Ends step x r s)
    (h' : Ends step x r' s') : r = r' ∧ s = s' := by
  induction h with
  | done h =>
    cases h' with
    | done h' => rw [h] at h'; simpa using h'
    | halt h' => rw [h] at h'; simp at h'
    | next h' => rw [StepsTo, h] at h'; simp at h'
  | halt h =>
    cases h' with
    | done h' => rw [h] at h'; simp at h'
    | halt h' => rw [h] at h'; simpa using h'
    | next h' => rw [StepsTo, h] at h'; simp at h'
  | next h _ ih => exact ih (h'.tail h)

/-- A run panics if one of its steps does. -/
theorem Ends.panics_iff {r : Except (Halt ε) PUnit} {s : σ} (h : Ends step x r s) :
    r = .error .panic ↔ ∃ y, Reaches step x y ∧ (step y.1).Panics y.2 := by
  constructor
  · rintro rfl
    obtain ⟨y, hreach, ⟨hok, -⟩ | ⟨e, he, hlast⟩⟩ := h.exists_last
    · cases hok
    · obtain rfl : Halt.panic = e := Except.error.inj he
      exact ⟨y, hreach, Proc.panics_iff.mpr ⟨s, hlast⟩⟩
  · rintro ⟨y, hreach, hpanics⟩
    obtain ⟨s', hlast⟩ := Proc.panics_iff.mp hpanics
    exact (h.unique (.of_reaches hreach (.halt hlast))).1

/-- What every step keeps, a run keeps. -/
theorem Ends.preserves {P : σ → Prop} (hstep : ∀ a, (step a).Keeps P)
    {r : Except (Halt ε) PUnit} {s : σ} (h : Ends step x r s) (hx : P x.2) : P s := by
  induction h with
  | @done x s h =>
    have hkeeps := hstep x.1 x.2 hx
    rwa [h] at hkeeps
  | @halt x s e h =>
    have hkeeps := hstep x.1 x.2 hx
    rwa [h] at hkeeps
  | @next x y s r h _ ih =>
    have hkeeps := hstep x.1 x.2 hx
    rw [h] at hkeeps
    exact ih hkeeps

/-- Steps that respect a relation are repeated from related states with the same result. -/
theorem respects_iterate {R : σ → σ → Prop} (hstep : ∀ a, (step a).Respects R) (fuel : ℕ) (a : φ) :
    (iterate step fuel a).Respects R := by
  induction fuel generalizing a with
  | zero => exact .fail _
  | succ fuel ih =>
    refine (hstep a).bind fun next => ?_
    rcases next with _ | b
    · exact .pure _
    · exact ih b

/-- A loop of steps that agree up to some halts agrees up to the same halts. -/
theorem respectsUpTo_iterate {E : Halt ε → Halt ε → Prop} {R : σ → σ → Prop}
    (hstep : ∀ a, (step a).RespectsUpTo E R) (fuel : ℕ) (a : φ) :
    (iterate step fuel a).RespectsUpTo E R := by
  induction fuel generalizing a with
  | zero => exact (Proc.Respects.fail _).upTo E
  | succ fuel ih =>
    refine (hstep a).bind fun next => ?_
    rcases next with _ | b
    · exact (Proc.Respects.pure _).upTo E
    · exact ih b

/-- More fuel than a measure that every step lowers runs to the end, from a state with an invariant
of the steps. -/
theorem iterate_ends {P : σ → Prop} {μ : σ → ℕ}
    (hstep : ∀ x y, P x.2 → StepsTo step x y → P y.2 ∧ μ y.2 < μ x.2) {fuel : ℕ} {a : φ} {s : σ}
    (hs : P s) (h : μ s < fuel) :
    Ends step (a, s) (iterate step fuel a s).1 (iterate step fuel a s).2 := by
  induction fuel generalizing a s with
  | zero => omega
  | succ fuel ih =>
    rcases hlast : step a s with ⟨e | _ | b, s'⟩
    · rw [iterate, Proc.bind_of_error hlast]
      exact .halt hlast
    · rw [iterate, Proc.bind_of_ok hlast]
      exact .done hlast
    · obtain ⟨hs', hlt⟩ : P s' ∧ μ s' < μ s := hstep (a, s) (b, s') hs hlast
      rw [iterate, Proc.bind_of_ok hlast]
      exact .next (show StepsTo step (a, s) (b, s') from hlast) (ih hs' (by omega))

end
