import Postgread.Foundations.BigEndian
import Postgread.Foundations.Decoder

/-!
# Encoding into a byte target

The cursor `BytesTarget` and its puts (`msg/util/encode.rs`). A put writes its bytes at the position
and leaves the rest of the buffer as it is.
-/

namespace Postgread

/-- What can go wrong when bytes are put: how many more would be needed. -/
inductive EncodeProblem where
  | outOfSpace (n : ℕ)
deriving DecidableEq, Repr

/-- A slice that is written to, with the position of the next byte. -/
abbrev BytesTarget := Cursor UInt8

/-- A method that encodes into a `&mut BytesTarget`. -/
abbrev Encode (α : Type) := Proc BytesTarget EncodeProblem α

namespace BytesTarget

/-- The beginning of a slice. -/
abbrev new (slice : List UInt8) : BytesTarget := Cursor.new slice

/-- The loop over the bytes of a put: each is assigned to its place in the buffer. -/
def assign : List UInt8 → ℕ → List UInt8 → List UInt8
  | slice, _, [] => slice
  | slice, pos, b :: bytes => assign (slice.set pos b) (pos + 1) bytes

/-- The slice that is written to keeps its length. -/
@[simp] theorem length_assign (slice : List UInt8) (pos : ℕ) (bytes : List UInt8) :
    (assign slice pos bytes).length = slice.length := by
  induction bytes generalizing slice pos with
  | nil => rfl
  | cons b bytes ih => rw [assign, ih, List.length_set]

/-- Put bytes at the position and go behind them. Without room nothing is put, and the error says
how much is missing. -/
def putBounded (bytes : List UInt8) : Encode Unit := fun target =>
  if h : target.pos + bytes.length ≤ target.slice.length then
    (.ok ⟨⟩, ⟨assign target.slice target.pos bytes, target.pos + bytes.length,
      by rw [length_assign]; exact h⟩)
  else
    let left := target.slice.length - target.pos
    (.error (.outOfSpace (bytes.length - left)), ⟨target.slice, target.slice.length, le_rfl⟩)

/-- Put one byte. -/
def putU8 (value : UInt8) : Encode Unit := putBounded [value]

/-- Put a number in four bytes. -/
def putU32 (value : UInt32) : Encode Unit := putBounded (toBigEndian 4 value.toNat)

/-- The loop replaces the bytes at its position and keeps all others. -/
theorem assign_append (done old rest bytes : List UInt8) (h : old.length = bytes.length) :
    assign (done ++ old ++ rest) done.length bytes = done ++ bytes ++ rest := by
  induction bytes generalizing done old with
  | nil =>
    obtain rfl : old = [] := List.eq_nil_of_length_eq_zero h
    rfl
  | cons b bytes ih =>
    obtain ⟨a, old, rfl⟩ : ∃ a old', old = a :: old' := by
      cases old with
      | nil => cases h
      | cons a old => exact ⟨a, old, rfl⟩
    have hset : (done ++ a :: old ++ rest).set done.length b = (done ++ [b]) ++ old ++ rest := by
      simp
    have hlen : done.length + 1 = (done ++ [b]).length := by simp
    rw [assign, hset, hlen, ih (done ++ [b]) old (Nat.succ.inj h)]
    simp

/-- A put with room writes its bytes after the written part. -/
theorem putBounded_of_le (target : BytesTarget) (bytes : List UInt8)
    (h : target.pos + bytes.length ≤ target.slice.length) :
    ∃ target', putBounded bytes target = (.ok ⟨⟩, target') ∧
      target'.slice.take target'.pos = target.slice.take target.pos ++ bytes ∧
      target'.rest = target.rest.drop bytes.length := by
  refine ⟨_, dif_pos h, ?_, ?_⟩
  all_goals
    have hsplit : target.slice = target.slice.take target.pos ++ target.rest.take bytes.length ++
        target.rest.drop bytes.length := by
      rw [List.append_assoc, List.take_append_drop, target.take_pos_append_rest]
    have hpos : (target.slice.take target.pos).length = target.pos :=
      List.length_take_of_le target.pos_le
    have hold : (target.rest.take bytes.length).length = bytes.length :=
      List.length_take_of_le (by rw [Cursor.length_rest, Cursor.left]; omega)
    have hassign := assign_append (target.slice.take target.pos)
      (target.rest.take bytes.length) (target.rest.drop bytes.length) bytes hold
    rw [hpos, ← hsplit] at hassign
    simp only [hassign, Cursor.rest]
    have hlen : target.pos + bytes.length = (target.slice.take target.pos ++ bytes).length := by
      rw [List.length_append, hpos]
    rw [hlen]
  · exact List.take_left
  · exact List.drop_left

/-- Bytes that do not fit are refused with the number of those that are missing. -/
theorem putBounded_of_lt (target : BytesTarget) (bytes : List UInt8)
    (h : target.slice.length < target.pos + bytes.length) :
    ∃ target', putBounded bytes target =
      (.error (.outOfSpace (bytes.length - target.left)), target') :=
  ⟨_, dif_neg (Nat.not_le.mpr h)⟩

end BytesTarget

end Postgread
