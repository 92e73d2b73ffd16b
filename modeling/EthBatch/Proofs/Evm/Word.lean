import EthBatch.Evm.Machine
import EthBatch.Proofs.Bytes

/-!
# Words that stand for numbers

As long as numbers stay below `2 ^ 256` the machine's arithmetic is that of the numbers.
-/

namespace EthBatch.Evm.Word

variable {a b n : Nat}

theorem toNat_ofNat (h : n < 2 ^ 256) : (BitVec.ofNat 256 n).toNat = n := by
  rw [BitVec.toNat_ofNat, Nat.mod_eq_of_lt h]

theorem ofNat_add (a b : Nat) :
    BitVec.ofNat 256 a + BitVec.ofNat 256 b = BitVec.ofNat 256 (a + b) :=
  (BitVec.ofNat_add a b).symm

theorem ofNat_mul (a b : Nat) :
    BitVec.ofNat 256 a * BitVec.ofNat 256 b = BitVec.ofNat 256 (a * b) :=
  (BitVec.ofNat_mul a b).symm

theorem ofNat_sub (h : b ≤ a) :
    BitVec.ofNat 256 a - BitVec.ofNat 256 b = BitVec.ofNat 256 (a - b) := by
  obtain ⟨c, rfl⟩ := Nat.exists_eq_add_of_le' h
  rw [Nat.add_sub_cancel, ← ofNat_add, BitVec.add_sub_cancel]

theorem ult_ofNat (ha : a < 2 ^ 256) (hb : b < 2 ^ 256) :
    (BitVec.ofNat 256 a).ult (BitVec.ofNat 256 b) = decide (a < b) := by
  rw [BitVec.ult, toNat_ofNat ha, toNat_ofNat hb]

theorem ofBool_beq_zero (p : Bool) : ofBool (ofBool p == 0) = ofBool !p := by
  cases p <;> decide

theorem ofBool_and (p q : Bool) : ofBool p &&& ofBool q = ofBool (p && q) := by
  cases p <;> cases q <;> decide

/-- An address is the whole of its word. -/
theorem account_of_lt {w : Word} (h : w.toNat < 2 ^ 160) : w.account = w := by
  apply BitVec.eq_of_toNat_eq
  rw [account, BitVec.toNat_setWidth, BitVec.toNat_setWidth, Nat.mod_eq_of_lt h,
    Nat.mod_eq_of_lt w.isLt]

/-- A number whose last five bits are cleared after rounding up. -/
theorem mask_ofNat (h : n + 31 < 2 ^ 256) :
    BitVec.ofNat 256 (n + 31) &&& ~~~(31 : Word) = BitVec.ofNat 256 (Bytes.ceil32 n) := by
  have bits (x : Word) : x &&& ~~~(31 : Word) = (x >>> 5) <<< 5 := by
    apply BitVec.eq_of_getLsbD_eq
    intro i hi
    have low : ∀ i < 256, (~~~(31 : Word)).getLsbD i = decide (5 ≤ i) := by decide +kernel
    rw [BitVec.getLsbD_and, low i hi, BitVec.getLsbD_shiftLeft, BitVec.getLsbD_ushiftRight]
    by_cases small : i < 5
    · simp [small, hi]
    · simp [small, hi, Nat.not_lt.mp small]
  rw [bits]
  apply BitVec.eq_of_toNat_eq
  have round : Bytes.ceil32 n < 2 ^ 256 := by
    unfold Bytes.ceil32
    omega
  rw [BitVec.toNat_shiftLeft, BitVec.toNat_ushiftRight, toNat_ofNat h, toNat_ofNat round,
    Nat.shiftRight_eq_div_pow, Nat.shiftLeft_eq, Bytes.ceil32]
  exact Nat.mod_eq_of_lt round

end EthBatch.Evm.Word
