import Mathlib.Data.List.Induction
import Mathlib.Tactic.Ring
import Mathlib.Algebra.Order.Ring.Nat

/-!
# Big-endian numbers

`ofBigEndian` reads a list of bytes as a number, most significant byte first; `toBigEndian w` writes
a number into `w` bytes. On `w` bytes and on numbers below `256 ^ w` they are inverse to each other.
-/

/-- The number that a list of bytes spells, most significant byte first. -/
def ofBigEndian (bytes : List UInt8) : ℕ :=
  bytes.foldl (fun n b => n * 256 + b.toNat) 0

/-- The last `width` base-256 digits of a number, most significant byte first. -/
def toBigEndian : ℕ → ℕ → List UInt8
  | 0, _ => []
  | width + 1, n => toBigEndian width (n / 256) ++ [UInt8.ofNat n]

/-- Without bytes the number is 0. -/
@[simp] theorem ofBigEndian_nil : ofBigEndian [] = 0 := rfl

/-- The last byte is the least significant one. -/
@[simp] theorem ofBigEndian_concat (bytes : List UInt8) (b : UInt8) :
    ofBigEndian (bytes ++ [b]) = ofBigEndian bytes * 256 + b.toNat := by
  simp [ofBigEndian]

/-- A number of a given width always has that many bytes. -/
@[simp] theorem length_toBigEndian (width n : ℕ) : (toBigEndian width n).length = width := by
  induction width generalizing n with
  | zero => rfl
  | succ width ih => simp [toBigEndian, ih]

/-- Bytes can only spell a number of their width. -/
theorem ofBigEndian_lt (bytes : List UInt8) : ofBigEndian bytes < 256 ^ bytes.length := by
  induction bytes using List.reverseRecOn with
  | nil => simp
  | append_singleton bytes b ih =>
    have hb : b.toNat < 256 := b.toNat_lt
    rw [ofBigEndian_concat, List.length_append, List.length_singleton, pow_succ]
    calc ofBigEndian bytes * 256 + b.toNat < (ofBigEndian bytes + 1) * 256 := by omega
      _ ≤ 256 ^ bytes.length * 256 := Nat.mul_le_mul_right _ ih

/-- Writing what was read gives the bytes back. -/
theorem toBigEndian_ofBigEndian (bytes : List UInt8) :
    toBigEndian bytes.length (ofBigEndian bytes) = bytes := by
  induction bytes using List.reverseRecOn with
  | nil => rfl
  | append_singleton bytes b ih =>
    have hb : b.toNat < 256 := b.toNat_lt
    have hdiv : (ofBigEndian bytes * 256 + b.toNat) / 256 = ofBigEndian bytes := by omega
    have hlast : UInt8.ofNat (ofBigEndian bytes * 256 + b.toNat) = b := by
      apply UInt8.toNat_inj.mp
      rw [UInt8.toNat_ofNat']
      omega
    rw [List.length_append, List.length_singleton, toBigEndian, ofBigEndian_concat, hdiv, ih, hlast]

/-- Reading what was written gives the number back, as far as it fits. -/
theorem ofBigEndian_toBigEndian (width n : ℕ) :
    ofBigEndian (toBigEndian width n) = n % 256 ^ width := by
  induction width generalizing n with
  | zero => simp [toBigEndian, Nat.mod_one]
  | succ width ih =>
    have hlast : (UInt8.ofNat n).toNat = n % 256 := UInt8.toNat_ofNat'
    rw [toBigEndian, ofBigEndian_concat, ih, hlast, pow_succ, Nat.mul_comm (256 ^ width) 256,
      Nat.mod_mul]
    omega
