/-!
# Byte strings and 32-byte words

Everything that goes over the wire is a list of bytes. Numbers travel big endian, in
words of 32 bytes, and byte strings are filled up with zeros to a whole number of words. Text
travels as UTF-8; decoding refuses everything that is not the encoding of a text.
-/

namespace EthBatch

/-- A byte string. -/
abbrev Bytes := List UInt8

namespace Bytes

/-- The number a byte string denotes, most significant byte first. -/
def toNat (b : Bytes) : Nat :=
  b.foldl (fun n x => n * 256 + x.toNat) 0

/-- The low `width` bytes of a number, most significant byte first. -/
def ofNat : (width n : Nat) → Bytes
  | 0, _ => []
  | width + 1, n => ofNat width (n / 256) ++ [UInt8.ofNat (n % 256)]

@[simp] theorem length_ofNat (width n : Nat) : (ofNat width n).length = width := by
  induction width generalizing n with
  | zero => rfl
  | succ width ih => simp [ofNat, ih]

theorem toNat_append_singleton (b : Bytes) (x : UInt8) :
    toNat (b ++ [x]) = toNat b * 256 + x.toNat := by
  simp [toNat]

/-- The number of values of a field of so many bytes. -/
def capacity (width : Nat) : Nat := Nat.pow 256 width

theorem capacity_succ (width : Nat) : capacity (width + 1) = 256 * capacity width :=
  Nat.mul_comm (Nat.pow 256 width) 256

/-- Writing keeps the value below the capacity of the field. -/
theorem toNat_ofNat (width n : Nat) : toNat (ofNat width n) = n % capacity width := by
  induction width generalizing n with
  | zero => exact (Nat.mod_one n).symm
  | succ width ih =>
    rw [ofNat, toNat_append_singleton, ih, capacity_succ, Nat.mod_mul]
    simp
    omega

theorem toNat_ofNat_of_lt {width n : Nat} (h : n < capacity width) :
    toNat (ofNat width n) = n := by
  rw [toNat_ofNat, Nat.mod_eq_of_lt h]

/-- A run of zero bytes. -/
def zeros (n : Nat) : Bytes := List.replicate n 0

@[simp] theorem length_zeros (n : Nat) : (zeros n).length = n := by
  simp [zeros]

/-- A number as one word; only its low 256 bits are kept. -/
def word (n : Nat) : Bytes := ofNat 32 n

@[simp] theorem length_word (n : Nat) : (word n).length = 32 := length_ofNat 32 n

/-- The least multiple of 32 that is not below `n`. -/
def ceil32 (n : Nat) : Nat := (n + 31) / 32 * 32

theorem le_ceil32 (n : Nat) : n ≤ ceil32 n := by
  unfold ceil32; omega

theorem ceil32_mod (n : Nat) : ceil32 n % 32 = 0 := by
  simp [ceil32]

/-- A byte string filled up with zeros to a whole number of words. -/
def padEnd (b : Bytes) : Bytes := b ++ zeros (ceil32 b.length - b.length)

theorem length_padEnd (b : Bytes) : (padEnd b).length = ceil32 b.length := by
  have := le_ceil32 b.length
  simp [padEnd]; omega

/-- A byte string filled up with `fill` on the left to one word. -/
def padStart (fill : UInt8) (b : Bytes) : Bytes := List.replicate (32 - b.length) fill ++ b

end Bytes

namespace Text.Utf8

/-- The bytes of a text. -/
def encode (s : String) : Bytes := s.toByteArray.data.toList

/-- The text that the bytes encode, if there is one. -/
def decode? (b : Bytes) : Option String := String.fromUTF8? ⟨b.toArray⟩

@[simp] theorem decode?_encode (s : String) : decode? (encode s) = some s := by
  rw [decode?, encode, Array.toArray_toList]
  exact dif_pos s.isValidUTF8

end Text.Utf8

end EthBatch
