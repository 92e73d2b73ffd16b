import EthBatch.Bytes
import Mathlib

/-!
# Byte strings as numbers

Reading a number and writing it are inverse to each other on byte strings of one length. The
rest is the arithmetic of padding: what is appended to reach a whole number of words, and how
long the result is.
-/

namespace EthBatch.Bytes

@[simp] theorem toNat_nil : toNat [] = 0 := rfl

theorem foldl_toNat (b : Bytes) (n : Nat) :
    b.foldl (fun n x => n * 256 + x.toNat) n = n * capacity b.length + toNat b := by
  induction b generalizing n with
  | nil => simp [capacity]
  | cons x b ih =>
      have first := ih (n * 256 + x.toNat)
      have second := ih x.toNat
      simp only [toNat, List.foldl_cons, List.length_cons, Nat.zero_mul, Nat.zero_add] at *
      rw [first, second, capacity_succ, Nat.add_mul, Nat.mul_assoc, Nat.add_assoc]

theorem toNat_append (a b : Bytes) : toNat (a ++ b) = toNat a * capacity b.length + toNat b := by
  rw [toNat, List.foldl_append, foldl_toNat b]
  rfl

/-- A byte string denotes a number below its capacity. -/
theorem toNat_lt (b : Bytes) : toNat b < capacity b.length := by
  induction b using List.reverseRecOn with
  | nil => simp [capacity]
  | append_singleton b x ih =>
      rw [toNat_append_singleton, List.length_append, List.length_singleton, capacity_succ]
      have := x.toNat_lt
      omega

/-- Writing what was read gives the bytes back. -/
theorem ofNat_toNat (b : Bytes) : ofNat b.length (toNat b) = b := by
  induction b using List.reverseRecOn with
  | nil => rfl
  | append_singleton b x ih =>
      have := x.toNat_lt
      rw [toNat_append_singleton, List.length_append, List.length_singleton, ofNat,
        show (toNat b * 256 + x.toNat) / 256 = toNat b by omega, ih,
        show (toNat b * 256 + x.toNat) % 256 = x.toNat by omega, UInt8.ofNat_toNat]

theorem eq_of_toNat_eq {a b : Bytes} (length : a.length = b.length) (h : toNat a = toNat b) :
    a = b := by
  rw [← ofNat_toNat a, ← ofNat_toNat b, length, h]

/-! ## Words -/

theorem capacity_word : capacity 32 = 2 ^ 256 := by decide

theorem toNat_word {n : Nat} (h : n < 2 ^ 256) : toNat (word n) = n :=
  toNat_ofNat_of_lt (by rwa [capacity_word])

@[simp] theorem toNat_zeros (n : Nat) : toNat (zeros n) = 0 := by
  induction n with
  | zero => rfl
  | succ n ih =>
      rw [zeros, List.replicate_succ', toNat_append_singleton, ← zeros, ih]
      rfl

@[simp] theorem toNat_padStart_zero (b : Bytes) : toNat (padStart 0 b) = toNat b := by
  rw [padStart, toNat_append, ← zeros, toNat_zeros, Nat.zero_mul, Nat.zero_add]

theorem length_padStart (fill : UInt8) {b : Bytes} (h : b.length ≤ 32) :
    (padStart fill b).length = 32 := by
  simp [padStart, h]

/-! ## Padding -/

theorem ceil32_lt (n : Nat) : ceil32 n < n + 32 := by
  unfold ceil32
  omega

theorem ceil32_mono {m n : Nat} (h : m ≤ n) : ceil32 m ≤ ceil32 n := by
  unfold ceil32
  omega

theorem take_length_padEnd (b : Bytes) : (padEnd b).take b.length = b := by
  simp [padEnd]

theorem drop_length_padEnd (b : Bytes) :
    (padEnd b).drop b.length = zeros (ceil32 b.length - b.length) := by
  simp [padEnd]

theorem any_ne_zero_zeros (n : Nat) : (zeros n).any (· ≠ 0) = false := by
  simp [zeros]

end EthBatch.Bytes
