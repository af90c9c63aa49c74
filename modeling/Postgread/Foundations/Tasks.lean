import Mathlib.Data.List.Basic
import Mathlib.Data.Nat.Notation

/-!
# Tasks that take turns

A program that spawns tasks gives them turns in an order that nobody knows. A turn changes the state
of one task and what all tasks share, and it yields outputs. The outputs of the whole program are a
mixture of those of its tasks.

A relation between the state of a task and its own outputs that every turn of this task keeps holds
in the whole program (`Pool.Each`). A task that needs at most so many turns, whatever is shared, is
over after these turns, whatever the other tasks do in between (`Within`).
-/

universe u

variable {σ ρ ω : Type u}

/-- A turn of a task in a state. -/
abbrev Turn (σ ρ ω : Type u) := σ → ρ → σ × ρ × List ω

/-- Tasks, what they share, and the outputs so far with the tasks that they come from. -/
structure Pool (σ ρ ω : Type u) where
  tasks : List σ
  shared : ρ
  outputs : List (ℕ × ω)

namespace Pool

/-- The outputs of one task. -/
def outputsOf (i : ℕ) (p : Pool σ ρ ω) : List ω :=
  p.outputs.filterMap fun x => if x.1 = i then some x.2 else none

/-- A new task comes after the others. -/
def spawn (p : Pool σ ρ ω) (s : σ) : Pool σ ρ ω := { p with tasks := p.tasks ++ [s] }

/-- A turn of one task. A task that there is not has no turns. -/
def turn (step : Turn σ ρ ω) (i : ℕ) (p : Pool σ ρ ω) : Pool σ ρ ω :=
  match p.tasks[i]? with
  | none => p
  | some s =>
    let (s', shared, outputs) := step s p.shared
    ⟨p.tasks.set i s', shared, p.outputs ++ outputs.map (i, ·)⟩

variable {step : Turn σ ρ ω} {p : Pool σ ρ ω} {i j : ℕ} {s : σ}

/-- A new task has no outputs yet. -/
@[simp] theorem outputsOf_spawn (i : ℕ) (p : Pool σ ρ ω) (s : σ) :
    (p.spawn s).outputsOf i = p.outputsOf i := rfl

/-- A new task does not touch what is shared. -/
@[simp] theorem shared_spawn (p : Pool σ ρ ω) (s : σ) : (p.spawn s).shared = p.shared := rfl

/-- A turn of a task that does not exist changes nothing. -/
theorem turn_of_none (h : p.tasks[i]? = none) : p.turn step i = p := by
  rw [turn, h]

/-- A turn of a task is one step of it, from the shared state and to it. -/
theorem turn_of_some (h : p.tasks[i]? = some s) :
    p.turn step i = ⟨p.tasks.set i (step s p.shared).1, (step s p.shared).2.1,
      p.outputs ++ (step s p.shared).2.2.map (i, ·)⟩ := by
  rw [turn, h]

/-- A turn starts and ends no task. -/
@[simp] theorem length_tasks_turn (step : Turn σ ρ ω) (i : ℕ) (p : Pool σ ρ ω) :
    (p.turn step i).tasks.length = p.tasks.length := by
  rcases h : p.tasks[i]? with _ | s
  · rw [turn_of_none h]
  · rw [turn_of_some h, List.length_set]

/-- The task that took the turn has made its step. -/
theorem tasks_turn_self (h : p.tasks[i]? = some s) :
    (p.turn step i).tasks[i]? = some (step s p.shared).1 := by
  obtain ⟨hlt, -⟩ := List.getElem?_eq_some_iff.mp h
  rw [turn_of_some h, List.getElem?_set_self hlt]

/-- The other tasks are where they were. -/
theorem tasks_turn_of_ne (h : i ≠ j) : (p.turn step i).tasks[j]? = p.tasks[j]? := by
  rcases hi : p.tasks[i]? with _ | s
  · rw [turn_of_none hi]
  · rw [turn_of_some hi, List.getElem?_set_ne h]

/-- The outputs of the step are added to those of the task. -/
theorem outputsOf_turn_self (h : p.tasks[i]? = some s) :
    (p.turn step i).outputsOf i = p.outputsOf i ++ (step s p.shared).2.2 := by
  rw [turn_of_some h, outputsOf, List.filterMap_append, List.filterMap_map]
  simp [outputsOf]

/-- The other tasks have no new outputs. -/
theorem outputsOf_turn_of_ne (h : i ≠ j) : (p.turn step i).outputsOf j = p.outputsOf j := by
  rcases hi : p.tasks[i]? with _ | s
  · rw [turn_of_none hi]
  · rw [turn_of_some hi, outputsOf, List.filterMap_append, List.filterMap_map]
    simp [outputsOf, h]

/-! ## What each task keeps -/

/-- A relation holds of every task and its outputs. A task that there is not has no outputs. -/
structure Each (I : ℕ → σ → List ω → Prop) (p : Pool σ ρ ω) : Prop where
  task : ∀ i s, p.tasks[i]? = some s → I i s (p.outputsOf i)
  outputsOf_eq_nil : ∀ i, p.tasks[i]? = none → p.outputsOf i = []

variable {I : ℕ → σ → List ω → Prop}

/-- Nothing has to hold of a pool without tasks. -/
theorem each_empty (shared : ρ) : Each I (⟨[], shared, []⟩ : Pool σ ρ ω) where
  task i s h := by simp at h
  outputsOf_eq_nil i h := rfl

/-- A new task has to begin well, and the others are not concerned. -/
theorem Each.spawn (h : p.Each I) (hs : I p.tasks.length s []) : (p.spawn s).Each I where
  task i s' hi := by
    rw [outputsOf_spawn]
    rcases Nat.lt_trichotomy i p.tasks.length with hlt | rfl | hgt
    · rw [Pool.spawn, List.getElem?_append_left hlt] at hi
      exact h.task i s' hi
    · obtain rfl : s = s' := by simpa [Pool.spawn] using hi
      rwa [h.outputsOf_eq_nil _ (List.getElem?_eq_none (Nat.le_refl _))]
    · rw [Pool.spawn, List.getElem?_eq_none (by rw [List.length_append]; exact hgt)] at hi
      cases hi
  outputsOf_eq_nil i hi := by
    rw [outputsOf_spawn]
    have hle : p.tasks.length + 1 ≤ i := by simpa [Pool.spawn] using hi
    exact h.outputsOf_eq_nil i (List.getElem?_eq_none (Nat.le_of_succ_le hle))

/-- A turn keeps the relation if it does so for the task that it is given to. -/
theorem Each.turn (h : p.Each I)
    (hstep : ∀ s, p.tasks[i]? = some s → I i s (p.outputsOf i) →
      I i (step s p.shared).1 (p.outputsOf i ++ (step s p.shared).2.2)) :
    (p.turn step i).Each I where
  task j s hj := by
    by_cases hij : i = j
    · subst hij
      rcases hi : p.tasks[i]? with _ | s₀
      · rw [turn_of_none hi, hi] at hj
        cases hj
      · rw [tasks_turn_self hi] at hj
        obtain rfl := Option.some.inj hj
        rw [outputsOf_turn_self hi]
        exact hstep s₀ hi (h.task i s₀ hi)
    · rw [tasks_turn_of_ne hij] at hj
      rw [outputsOf_turn_of_ne hij]
      exact h.task j s hj
  outputsOf_eq_nil j hj := by
    have hnone : p.tasks[j]? = none := by simpa using hj
    by_cases hij : i = j
    · subst hij
      rw [turn_of_none hnone]
      exact h.outputsOf_eq_nil i hnone
    · rw [outputsOf_turn_of_ne hij]
      exact h.outputsOf_eq_nil j hnone

end Pool

/-! ## Tasks that come to an end -/

/-- Whatever is shared, a task is over after at most so many turns. -/
inductive Within (step : Turn σ ρ ω) (isOver : σ → Prop) : ℕ → σ → Prop where
  | finished {n : ℕ} {s : σ} (h : isOver s) : Within step isOver n s
  | next {n : ℕ} {s : σ} (h : ∀ shared, Within step isOver n (step s shared).1) :
      Within step isOver (n + 1) s

namespace Within

variable {step : Turn σ ρ ω} {isOver : σ → Prop} {n : ℕ} {s : σ}

/-- Within no turns at all the task is over already. -/
theorem over_of_zero (h : Within step isOver 0 s) : isOver s := by
  cases h with
  | finished h => exact h

/-- More turns are enough as well. -/
theorem mono (h : Within step isOver n s) {m : ℕ} (hle : n ≤ m) : Within step isOver m s := by
  induction h generalizing m with
  | finished h => exact .finished h
  | next _ ih =>
    obtain ⟨m, rfl⟩ := Nat.exists_eq_add_one_of_ne_zero (show m ≠ 0 by omega)
    exact .next fun shared => ih shared (Nat.le_of_succ_le_succ hle)

/-- A turn counts, unless the task is over already. -/
theorem turn (hover : ∀ s shared, isOver s → isOver (step s shared).1) (h : Within step isOver n s)
    (shared : ρ) : Within step isOver (n - 1) (step s shared).1 := by
  cases h with
  | finished h => exact .finished (hover s shared h)
  | next h => exact h shared

end Within

/-- One of the tasks is over after at most so many turns of its own. -/
def Pool.WithinAt (step : Turn σ ρ ω) (isOver : σ → Prop) (n i : ℕ) (p : Pool σ ρ ω) : Prop :=
  ∃ s, p.tasks[i]? = some s ∧ Within step isOver n s

namespace Pool.WithinAt

variable {step : Turn σ ρ ω} {isOver : σ → Prop} {n i j : ℕ} {p : Pool σ ρ ω}

/-- A new task takes no turns from the others. -/
theorem spawn (h : p.WithinAt step isOver n i) (s : σ) : (p.spawn s).WithinAt step isOver n i := by
  obtain ⟨s', hs', hwithin⟩ := h
  obtain ⟨hlt, -⟩ := List.getElem?_eq_some_iff.mp hs'
  exact ⟨s', by rwa [Pool.spawn, List.getElem?_append_left hlt], hwithin⟩

/-- A turn of its own brings the task nearer to its end. -/
theorem turn_self (hover : ∀ s shared, isOver s → isOver (step s shared).1)
    (h : p.WithinAt step isOver n i) : (p.turn step i).WithinAt step isOver (n - 1) i := by
  obtain ⟨s, hs, hwithin⟩ := h
  exact ⟨_, tasks_turn_self hs, hwithin.turn hover p.shared⟩

/-- A turn of another task does not keep it from its end. -/
theorem turn_of_ne (h : p.WithinAt step isOver n i) (hij : j ≠ i) :
    (p.turn step j).WithinAt step isOver n i := by
  obtain ⟨s, hs, hwithin⟩ := h
  exact ⟨s, by rwa [tasks_turn_of_ne hij], hwithin⟩

end Pool.WithinAt
