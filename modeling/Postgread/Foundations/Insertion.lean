import Mathlib.Data.List.Basic

/-!
# Inserting letters into a word

`Inserts P w w'` says that the word `w'` is `w` with letters that have the property `P` inserted at
any places. Every letter of `w` has its place in `w'`, and what stands before it is again an
insertion (`Inserts.exists_split`); an automaton that ignores the inserted letters does not tell the
words apart (`Inserts.foldlM_eq`).
-/

universe u v

variable {α : Type u} {β : Type u} {σ : Type v} {P : α → Prop}

/-- The second word is the first with letters that have the property inserted. -/
inductive Inserts (P : α → Prop) : List α → List α → Prop where
  | nil : Inserts P [] []
  | keep {w w' : List α} (a : α) (h : Inserts P w w') : Inserts P (a :: w) (a :: w')
  | insert {w w' : List α} {a : α} (ha : P a) (h : Inserts P w w') : Inserts P w (a :: w')

namespace Inserts

variable {w w' : List α}

/-- The place of a letter of the first word. -/
theorem exists_split {u v : List α} {a : α} (h : Inserts P (u ++ a :: v) w') :
    ∃ u' v', w' = u' ++ a :: v' ∧ Inserts P u u' ∧ Inserts P v v' := by
  generalize hw : u ++ a :: v = w at h
  induction h generalizing u with
  | nil => simp at hw
  | @keep w w' b h ih =>
    rcases u with _ | ⟨b', u⟩
    · obtain ⟨rfl, rfl⟩ := List.cons.inj hw
      exact ⟨[], w', rfl, .nil, h⟩
    · obtain ⟨rfl, htail⟩ := List.cons.inj hw
      obtain ⟨u', v', rfl, hu, hv⟩ := ih htail
      exact ⟨b' :: u', v', rfl, .keep b' hu, hv⟩
  | @insert w w' b hb h ih =>
    obtain ⟨u', v', rfl, hu, hv⟩ := ih hw
    exact ⟨b :: u', v', rfl, .insert hb hu, hv⟩

/-- Renaming the letters does not matter, if those that may be inserted still may. -/
theorem map {Q : β → Prop} {f : α → β} (hf : ∀ a, P a → Q (f a)) (h : Inserts P w w') :
    Inserts Q (w.map f) (w'.map f) := by
  induction h with
  | nil => exact .nil
  | keep a _ ih => exact .keep _ ih
  | insert ha _ ih => exact .insert (hf _ ha) ih

/-- What nothing is made of leaves no trace. -/
theorem flatMap_eq {f : α → List β} (hf : ∀ a, P a → f a = []) (h : Inserts P w w') :
    w'.flatMap f = w.flatMap f := by
  induction h with
  | nil => rfl
  | keep a _ ih => rw [List.flatMap_cons, List.flatMap_cons, ih]
  | insert ha _ ih => rw [List.flatMap_cons, hf _ ha, ih, List.nil_append]

/-- An automaton that ignores the inserted letters ends where it ends without them. -/
theorem foldlM_eq {δ : σ → α → Option σ} (hδ : ∀ s a, P a → δ s a = some s)
    (h : Inserts P w w') (s : σ) : w'.foldlM δ s = w.foldlM δ s := by
  induction h generalizing s with
  | nil => rfl
  | keep a _ ih => simp only [List.foldlM_cons, ih]
  | insert ha _ ih =>
    rw [List.foldlM_cons, hδ s _ ha, Option.bind_eq_bind, Option.bind_some]
    exact ih s

end Inserts
