import Mathlib.Data.List.Forall2

/-!
# Words of two channels in two orders

A word holds the letters of two channels, the early ones and the others, in one order. `Hastens`
says that a second word has the same letters of each channel in the same order, with early letters
moved in front of others. `hastens_of_leads` gets this from the channels and from `leads`, which
counts the early letters in front of each other letter.
-/

universe u

variable {α β : Type u}

/-- The second word is the first with early letters moved in front of others. -/
inductive Hastens (early : α → Bool) : List α → List α → Prop where
  | nil : Hastens early [] []
  | keep {w w' : List α} (a : α) (h : Hastens early w w') : Hastens early (a :: w) (a :: w')
  | overtake {u v w' : List α} {a : α} (ha : early a) (hu : ∀ b ∈ u, early b = false)
      (h : Hastens early (u ++ v) w') : Hastens early (u ++ a :: v) (a :: w')

namespace Hastens

variable {early : α → Bool} {w w' : List α}

/-- No letter is lost or added. -/
theorem length_eq (h : Hastens early w w') : w'.length = w.length := by
  induction h with
  | nil => rfl
  | keep a _ ih => rw [List.length_cons, List.length_cons, ih]
  | overtake _ _ _ ih =>
    rw [List.length_cons, ih, List.length_append, List.length_append, List.length_cons,
      Nat.add_assoc]

/-- Only the empty word is read as the empty word. -/
theorem eq_nil_iff (h : Hastens early w w') : w' = [] ↔ w = [] := by
  rw [← List.length_eq_zero_iff, h.length_eq, List.length_eq_zero_iff]

/-- Renaming the letters does not matter, if early letters stay early. -/
theorem map {early' : β → Bool} {f : α → β} (hf : ∀ a, early' (f a) = early a)
    (h : Hastens early w w') : Hastens early' (w.map f) (w'.map f) := by
  induction h with
  | nil => exact .nil
  | keep a _ ih => exact .keep _ ih
  | @overtake u v w' a ha hu _ ih =>
    rw [List.map_append] at ih
    rw [List.map_append, List.map_cons, List.map_cons]
    refine .overtake (by rw [hf, ha]) (fun b hb => ?_) ih
    obtain ⟨a', ha', rfl⟩ := List.mem_map.mp hb
    rw [hf, hu a' ha']

end Hastens

/-- How many early letters stand in front of each other letter, when `n` stand in front of all. -/
def leads (early : α → Bool) : ℕ → List α → List ℕ
  | _, [] => []
  | n, a :: w => if early a then leads early (n + 1) w else n :: leads early n w

section

variable {early : α → Bool}

/-- No letter has fewer early ones in front of it than the word as a whole. -/
theorem le_of_mem_leads {n m : ℕ} {w : List α} (h : m ∈ leads early n w) : n ≤ m := by
  induction w generalizing n with
  | nil => cases h
  | cons a w ih =>
    rw [leads] at h
    split at h
    · exact Nat.le_of_succ_le (ih h)
    · rcases List.mem_cons.mp h with rfl | h
      · exact Nat.le_refl m
      · exact ih h

/-- One more letter in front of an early one of the word is not counted twice. -/
theorem leads_overtake {u v : List α} {a : α} (ha : early a) (hu : ∀ b ∈ u, early b = false)
    (n : ℕ) :
    leads early (n + 1) (u ++ v) = (leads early n (u ++ a :: v)).map (max (n + 1)) := by
  induction u with
  | nil =>
    rw [List.nil_append, List.nil_append, leads, if_pos ha]
    have hmax : ∀ m ∈ leads early (n + 1) v, max (n + 1) m = id m := fun m hm =>
      Nat.max_eq_right (le_of_mem_leads hm)
    rw [List.map_congr_left hmax, List.map_id]
  | cons b u ih =>
    have hb : ¬ early b := by simp [hu b List.mem_cons_self]
    rw [List.cons_append, List.cons_append, leads, leads, if_neg hb, if_neg hb, List.map_cons,
      ih fun b' hb' => hu b' (List.mem_cons_of_mem b hb'), Nat.max_eq_left (Nat.le_succ n)]

/-- A lower bound of all numbers on the right may be applied on the left. -/
theorem forall₂_map_max {n : ℕ} {ms ms' : List ℕ} (h : List.Forall₂ (· ≤ ·) ms ms')
    (hn : ∀ m ∈ ms', n ≤ m) : List.Forall₂ (· ≤ ·) (ms.map (max n)) ms' := by
  induction h with
  | nil => exact .nil
  | @cons m m' ms ms' hm _ ih =>
    rw [List.forall_mem_cons] at hn
    exact .cons (Nat.max_le.mpr ⟨hn.1, hm⟩) (ih hn.2)

/-- If both channels keep their orders, and in front of each other letter there are no fewer early
ones than before, early letters have been moved forward. -/
theorem hastens_of_leads {n : ℕ} {w w' : List α} (hearly : w'.filter early = w.filter early)
    (hothers : w'.filter (! early ·) = w.filter (! early ·))
    (hleads : List.Forall₂ (· ≤ ·) (leads early n w) (leads early n w')) : Hastens early w w' := by
  induction w' generalizing n w with
  | nil =>
    rcases w with _ | ⟨a, w⟩
    · exact .nil
    · cases ha : early a <;> simp [ha] at hearly hothers
  | cons a w' ih =>
    cases ha : early a with
    -- the next early letter is in front, and everything it overtakes is of the other kind
    | true =>
      rw [List.filter_cons_of_pos ha] at hearly
      obtain ⟨u, v, rfl, hu, -, hv⟩ := List.filter_eq_cons_iff.mp hearly.symm
      replace hu : ∀ b ∈ u, early b = false := fun b hb => by simpa using hu b hb
      have hnone : u.filter early = [] := List.filter_eq_nil_iff.mpr fun b hb => by simp [hu b hb]
      rw [leads, if_pos ha] at hleads
      refine .overtake ha hu (@ih (n + 1) _ ?_ ?_ ?_)
      · rw [List.filter_append, hnone, hv, List.nil_append]
      · simpa [ha] using hothers
      · rw [leads_overtake ha hu]
        exact forall₂_map_max hleads fun m hm => le_of_mem_leads hm
    | false =>
      rw [List.filter_cons_of_pos (by simp [ha])] at hothers
      obtain ⟨u, v, rfl, hu, -, hv⟩ := List.filter_eq_cons_iff.mp hothers.symm
      rw [leads, if_neg (by simp [ha])] at hleads
      rcases u with _ | ⟨b, u⟩
      · rw [List.nil_append, leads, if_neg (by simp [ha])] at hleads
        rw [List.nil_append, List.filter_cons_of_neg (by simp [ha]),
          List.filter_cons_of_neg (by simp [ha])] at hearly
        exact .keep a (ih hearly hv.symm (List.forall₂_cons.mp hleads).2)
      · -- an early letter in front of the first of the others would have to stay there
        have hb : early b := by simpa using hu b List.mem_cons_self
        rw [List.cons_append, leads, if_pos hb] at hleads
        obtain ⟨m, ms, hm, -, hms⟩ := List.forall₂_cons_right_iff.mp hleads
        have hle := @le_of_mem_leads _ early (n + 1) m (u ++ a :: v) (by rw [hms]; simp)
        omega

end
