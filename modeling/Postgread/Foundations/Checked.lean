import Mathlib.Algebra.Order.Ring.Nat
import Postgread.Foundations.Decoder

/-!
# Checked arithmetic and indexing

What a program on slices may abort on: a sum or a difference of sizes that is out of range, and an
index or a range outside of its slice. `none` stands for the abort. A `RawCursor` is a cursor that
does not carry the bound of its position; `Cursor.raw` forgets the bound.
-/

universe u

variable {τ : Type u}

namespace Checked

/-- The sum of two sizes of so many bits. -/
def add (bits a b : ℕ) : Option ℕ := if a + b < 2 ^ bits then some (a + b) else none

/-- The difference of two sizes. -/
def sub (a b : ℕ) : Option ℕ := if b ≤ a then some (a - b) else none

/-- `slice[i]`. -/
def get (slice : List τ) (i : ℕ) : Option τ := slice[i]?

/-- `slice[i] = a`. -/
def set (slice : List τ) (i : ℕ) (a : τ) : Option (List τ) :=
  if i < slice.length then some (slice.set i a) else none

/-- `slice[start .. stop]`. -/
def range (slice : List τ) (start stop : ℕ) : Option (List τ) :=
  if start ≤ stop ∧ stop ≤ slice.length then some ((slice.drop start).take (stop - start))
  else none

/-- A sum that fits is the sum. -/
theorem add_of_lt {bits a b : ℕ} (h : a + b < 2 ^ bits) : add bits a b = some (a + b) := if_pos h

/-- A slice takes less than half of the address space, so its length and a small size add up. -/
theorem add_lt_of_half {bits a b : ℕ} (hbits : 32 ≤ bits) (ha : a < 2 ^ (bits - 1))
    (hb : b ≤ 2 ^ 31) : a + b < 2 ^ bits := by
  have hlarge : 2 ^ 31 ≤ 2 ^ (bits - 1) := Nat.pow_le_pow_right (by omega) (by omega)
  calc a + b < 2 ^ (bits - 1) + 2 ^ (bits - 1) := by omega
    _ = 2 ^ bits := by
      rw [← two_mul, ← Nat.pow_succ', Nat.succ_eq_add_one, Nat.sub_add_cancel (by omega)]

/-- A difference that is not negative is the difference. -/
theorem sub_of_le {a b : ℕ} (h : b ≤ a) : sub a b = some (a - b) := if_pos h

/-- The element behind the first part of a list. -/
theorem get_append_cons (l l' : List τ) (a : τ) : get (l ++ a :: l') l.length = some a := by
  simp [get]

/-- An index inside the slice is written to. -/
theorem set_of_lt {slice : List τ} {i : ℕ} (h : i < slice.length) (a : τ) :
    set slice i a = some (slice.set i a) := if_pos h

/-- A range inside the slice is a part of it. -/
theorem range_of_le {slice : List τ} {start stop : ℕ} (h : start ≤ stop)
    (hstop : stop ≤ slice.length) :
    range slice start stop = some ((slice.drop start).take (stop - start)) :=
  if_pos ⟨h, hstop⟩

end Checked

/-- A slice and a position that nothing keeps inside of it. -/
structure RawCursor (τ : Type u) where
  slice : List τ
  pos : ℕ

/-- The cursor without its bound. -/
def Cursor.raw (c : Cursor τ) : RawCursor τ := ⟨c.slice, c.pos⟩

/-- The slice does not change when the cursor is taken as two fields. -/
@[simp] theorem Cursor.slice_raw (c : Cursor τ) : c.raw.slice = c.slice := rfl

/-- Nor does the position. -/
@[simp] theorem Cursor.pos_raw (c : Cursor τ) : c.raw.pos = c.pos := rfl

/-- `left()`. -/
def RawCursor.left (c : RawCursor τ) : Option ℕ := Checked.sub c.slice.length c.pos

/-- `rest()`. -/
def RawCursor.rest (c : RawCursor τ) : Option (List τ) :=
  Checked.range c.slice c.pos c.slice.length

/-- At the position of a cursor the subtraction does not underflow. -/
theorem Cursor.left_raw (c : Cursor τ) : c.raw.left = some c.left := Checked.sub_of_le c.pos_le

/-- Nor is the range out of bounds. -/
theorem Cursor.rest_raw (c : Cursor τ) : c.raw.rest = some c.rest := by
  rw [RawCursor.rest, Cursor.slice_raw, Cursor.pos_raw, Checked.range_of_le c.pos_le (Nat.le_refl _),
    List.take_of_length_le (Nat.le_of_eq List.length_drop)]
  rfl

/-- What is left depends on the slice and the position only. -/
theorem Cursor.rest_of_raw {c : Cursor τ} {slice : List τ} {pos : ℕ} (h : c.raw = ⟨slice, pos⟩) :
    c.rest = slice.drop pos := by
  obtain ⟨rfl, rfl⟩ : c.slice = slice ∧ c.pos = pos := by simpa [Cursor.raw] using h
  rfl
