import Postgread.Server.Isolation

/-!
# The numbers of clients

Every line of the server names a client by its number. The numbers come from a counter that the
tasks increment in an order that nobody knows, and that wraps around. `takers` reads this order off a
schedule. `serving_numbers` says that the numbers are consecutive in it, and that two clients share
one only after the counter has wrapped around.
-/

namespace Postgread

variable {platform : Platform} {server : Server}

namespace ClientTask

/-- A task keeps its number and leaves the counter alone after that. -/
theorem turn_of_clientId {task : ClientTask} {clientId : ℕ} (h : task.clientId = some clientId)
    (nextClientId : ℕ) :
    (turn platform server task nextClientId).1.clientId = some clientId ∧
      (turn platform server task nextClientId).2.1 = nextClientId := by
  cases task with
  | accepted client => cases h
  | numbered clientId' client =>
    refine ⟨?_, rfl⟩
    simp only [turn, handleClient]
    split
    · exact h
    · split <;> exact h
  | connecting clientId' client endpoint =>
    refine ⟨?_, rfl⟩
    simp only [turn, connect]
    split <;> exact h
  | conveying clientId' client ph c =>
    refine ⟨?_, rfl⟩
    simp only [turn, convey]
    split <;> exact h
  | finished clientId' => exact ⟨h, rfl⟩

end ClientTask

namespace Serving

/-- The number that the task of a client has taken. -/
def numberOf (i : ℕ) (serving : Serving) : Option ℕ :=
  serving.pool.tasks[i]?.bind ClientTask.clientId

/-- The task that takes a number in the turn of an actor. -/
def taker (serving : Serving) : Actor → Option ℕ
  | .loop => none
  | .task i =>
    match serving.pool.tasks[i]? with
    | some (.accepted _) => some i
    | _ => none

/-- The tasks whose turns in a schedule take a number, in the order of these turns. -/
def takers (platform : Platform) (server : Server) : List Actor → Serving → List ℕ
  | [], _ => []
  | actor :: schedule, serving =>
    (serving.taker actor).toList ++ takers platform server schedule (serving.turn platform server actor)

/-- The numbers are those of the tasks in this order, and the counter holds the next one. -/
structure Numbered (platform : Platform) (order : List ℕ) (serving : Serving) : Prop where
  nodup : order.Nodup
  numberOf_iff : ∀ i clientId, serving.numberOf i = some clientId ↔
    ∃ k, order[k]? = some i ∧ clientId = (k + 1) % 2 ^ platform.usizeBits
  shared_eq : serving.pool.shared = (order.length + 1) % 2 ^ platform.usizeBits

variable {serving : Serving} {order : List ℕ}

/-- Before the first connection no number has been taken. -/
theorem numbered_start (platform : Platform) (server : Server) :
    (start server).Numbered platform [] where
  nodup := List.nodup_nil
  numberOf_iff i clientId := by simp [numberOf, start]
  shared_eq := by
    have hlt : 1 < 2 ^ platform.usizeBits :=
      Nat.one_lt_two_pow (by have := platform.sixteen_le; omega)
    exact (Nat.mod_eq_of_lt hlt).symm

/-- A new task has no number yet. -/
theorem Numbered.loopAccepting (h : serving.Numbered platform order) :
    serving.loopAccepting.Numbered platform order := by
  have hspawn (client : Client) (i : ℕ) :
      (serving.pool.tasks ++ [ClientTask.accepted client])[i]?.bind ClientTask.clientId =
        serving.numberOf i := by
    rw [numberOf]
    rcases Nat.lt_trichotomy i serving.pool.tasks.length with hlt | rfl | hgt
    · rw [List.getElem?_append_left hlt]
    · simp [ClientTask.clientId]
    · rw [List.getElem?_eq_none (by simpa using Nat.succ_le_of_lt hgt),
        List.getElem?_eq_none hgt.le]
  rw [Serving.loopAccepting]
  split
  · exact h
  split
  · exact ⟨h.nodup, h.numberOf_iff, h.shared_eq⟩
  · exact ⟨h.nodup, h.numberOf_iff, h.shared_eq⟩
  · rename_i client incoming _
    refine ⟨h.nodup, fun i clientId => ?_, h.shared_eq⟩
    rw [← h.numberOf_iff, ← hspawn client]
    rfl

/-- A turn of a task that has its number. -/
theorem Numbered.turn_of_clientId (h : serving.Numbered platform order) {i clientId : ℕ}
    {task : ClientTask} (hi : serving.pool.tasks[i]? = some task)
    (hnumber : task.clientId = some clientId) :
    (serving.turn platform server (.task i)).Numbered platform order := by
  obtain ⟨hkeeps, hshared⟩ :=
    @ClientTask.turn_of_clientId platform server _ _ hnumber serving.pool.shared
  refine ⟨h.nodup, fun j clientId' => ?_, ?_⟩
  · rw [← h.numberOf_iff]
    by_cases hij : i = j
    · subst hij
      simp only [numberOf, turn, Pool.tasks_turn_self hi, hi, Option.bind_some, hkeeps, hnumber]
    · simp only [numberOf, turn, Pool.tasks_turn_of_ne hij]
  · rw [turn, Pool.turn_of_some hi]
    exact hshared.trans h.shared_eq

/-- A turn of a task that takes its number. -/
theorem Numbered.turn_of_accepted (h : serving.Numbered platform order) {i : ℕ} {client : Client}
    (hi : serving.pool.tasks[i]? = some (.accepted client)) :
    (serving.turn platform server (.task i)).Numbered platform (order ++ [i]) := by
  have hmem : i ∉ order := by
    intro hmem
    obtain ⟨k, hk⟩ := List.mem_iff_getElem?.mp hmem
    have hnumber := (h.numberOf_iff i _).mpr ⟨k, hk, rfl⟩
    simp [numberOf, hi, ClientTask.clientId] at hnumber
  have hconcat (k j : ℕ) : (order ++ [i])[k]? = some j ↔
      order[k]? = some j ∨ k = order.length ∧ j = i := by
    rcases Nat.lt_trichotomy k order.length with hlt | rfl | hgt
    · simp [List.getElem?_append_left hlt, hlt.ne]
    · simp [eq_comm]
    · rw [List.getElem?_eq_none (by simpa using Nat.succ_le_of_lt hgt),
        List.getElem?_eq_none hgt.le]
      simp [hgt.ne']
  refine ⟨List.nodup_append.mpr ⟨h.nodup, by simp, ?_⟩, fun j clientId => ?_, ?_⟩
  · rintro j hj j' hj' rfl
    exact hmem (List.mem_singleton.mp hj' ▸ hj)
  · by_cases hij : i = j
    · subst hij
      have hself : (serving.turn platform server (.task i)).numberOf i =
          some ((order.length + 1) % 2 ^ platform.usizeBits) := by
        simp only [numberOf, turn, Pool.tasks_turn_self hi, Option.bind_some]
        rw [← h.shared_eq]
        rfl
      rw [hself, Option.some.injEq]
      constructor
      · rintro rfl
        exact ⟨order.length, (hconcat _ _).mpr (.inr ⟨rfl, rfl⟩), rfl⟩
      · rintro ⟨k, hk, rfl⟩
        rcases (hconcat _ _).mp hk with hk | ⟨rfl, -⟩
        · exact absurd (List.mem_of_getElem? hk) hmem
        · rfl
    · have hother : (serving.turn platform server (.task i)).numberOf j = serving.numberOf j := by
        simp only [numberOf, turn, Pool.tasks_turn_of_ne hij]
      have hk (k : ℕ) : (order ++ [i])[k]? = some j ↔ order[k]? = some j := by
        rw [hconcat, or_iff_left]
        rintro ⟨-, rfl⟩
        exact hij rfl
      simp only [hother, h.numberOf_iff, hk]
  · rw [turn, Pool.turn_of_some hi, List.length_append, List.length_singleton]
    show (serving.pool.shared + 1) % 2 ^ platform.usizeBits = _
    rw [h.shared_eq, Nat.mod_add_mod]

/-- A turn adds the task that takes a number in it, if there is one. -/
theorem Numbered.turn (h : serving.Numbered platform order) (actor : Actor) :
    (serving.turn platform server actor).Numbered platform
      (order ++ (serving.taker actor).toList) := by
  cases actor with
  | loop =>
    rw [taker, Option.toList_none, List.append_nil]
    exact h.loopAccepting
  | task i =>
    rcases hi : serving.pool.tasks[i]? with _ | task
    · rw [Serving.turn, Pool.turn_of_none hi]
      simpa only [taker, hi, Option.toList_none, List.append_nil] using h
    rcases hnumber : task.clientId with _ | clientId
    · cases task with
      | accepted client => simpa only [taker, hi, Option.toList_some] using h.turn_of_accepted hi
      | _ => cases hnumber
    · cases task with
      | accepted client => cases hnumber
      | _ =>
        simpa only [taker, hi, Option.toList_none, List.append_nil] using
          h.turn_of_clientId hi hnumber

/-- A schedule adds the tasks that take numbers in it. -/
theorem Numbered.run (h : serving.Numbered platform order) (schedule : List Actor) :
    (serving.run platform server schedule).Numbered platform
      (order ++ takers platform server schedule serving) := by
  induction schedule generalizing serving order with
  | nil => rwa [takers, List.append_nil]
  | cons actor schedule ih =>
    rw [takers, ← List.append_assoc]
    exact ih (h.turn actor)

/-- Two clients share a number only after the counter has wrapped around. -/
theorem Numbered.eq_or_wrapped (h : serving.Numbered platform order) {i j clientId : ℕ}
    (hi : serving.numberOf i = some clientId) (hj : serving.numberOf j = some clientId) :
    i = j ∨ 2 ^ platform.usizeBits < order.length := by
  obtain ⟨k, hk, rfl⟩ := (h.numberOf_iff i _).mp hi
  obtain ⟨l, hl, heq⟩ := (h.numberOf_iff j _).mp hj
  by_cases hkl : k = l
  · subst hkl
    exact .inl (Option.some.inj (hk.symm.trans hl))
  · right
    obtain ⟨hklt, -⟩ := List.getElem?_eq_some_iff.mp hk
    obtain ⟨hllt, -⟩ := List.getElem?_eq_some_iff.mp hl
    by_contra hle
    -- both positions are smaller than the modulus, so that only the last one wraps around
    have hmod {m : ℕ} (hm : m < 2 ^ platform.usizeBits) :
        (m + 1) % 2 ^ platform.usizeBits = if m + 1 = 2 ^ platform.usizeBits then 0 else m + 1 := by
      split_ifs with hlast
      · rw [hlast, Nat.mod_self]
      · exact Nat.mod_eq_of_lt (by omega)
    rw [hmod (by omega), hmod (by omega)] at heq
    split_ifs at heq <;> omega

end Serving

open Serving

/-- In every schedule the clients have consecutive numbers in the order of the turns that take them,
up to wrapping, and keep them from then on. As long as the counter has not wrapped around, no two
clients have the same. -/
theorem serving_numbers (platform : Platform) (server : Server) (schedule : List Actor) :
    let serving := (start server).run platform server schedule
    let order := takers platform server schedule (start server)
    order.Nodup ∧ order.length ≤ serving.pool.tasks.length ∧
      (∀ i clientId, serving.numberOf i = some clientId ↔
        ∃ k, order[k]? = some i ∧ clientId = (k + 1) % 2 ^ platform.usizeBits) ∧
      (∀ i j clientId, serving.numberOf i = some clientId → serving.numberOf j = some clientId →
        i = j ∨ 2 ^ platform.usizeBits < order.length) ∧
      ∀ schedule' i clientId, serving.numberOf i = some clientId →
        (serving.run platform server schedule').numberOf i = some clientId := by
  intro serving order
  have h : serving.Numbered platform order := (numbered_start platform server).run schedule
  refine ⟨h.nodup, ?_, h.numberOf_iff, fun i j clientId => h.eq_or_wrapped,
    fun schedule' i clientId hi => ?_⟩
  · -- only tasks that there are have numbers
    have hsubset : order ⊆ List.range serving.pool.tasks.length := by
      intro i hi
      obtain ⟨k, hk⟩ := List.mem_iff_getElem?.mp hi
      have hnumber := (h.numberOf_iff i _).mpr ⟨k, hk, rfl⟩
      obtain ⟨task, htask, -⟩ := Option.bind_eq_some_iff.mp hnumber
      exact List.mem_range.mpr (List.getElem?_eq_some_iff.mp htask).1
    simpa using (List.subperm_of_subset h.nodup hsubset).length_le
  · -- the order only grows
    obtain ⟨k, hk, rfl⟩ := (h.numberOf_iff i clientId).mp hi
    refine ((h.run schedule').numberOf_iff i _).mpr ⟨k, ?_, rfl⟩
    rw [List.getElem?_append_left (List.getElem?_eq_some_iff.mp hk).1, hk]

end Postgread
