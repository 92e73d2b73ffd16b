import EthBatch.Evm.Machine
import EthBatch.Proofs.Bytes

/-!
# Reading what was written

A stretch of the memory is read piece by piece. What was written last is found again, and what
lies elsewhere is as before. Windows of a byte string that is put together from parts are the
parts.
-/

namespace EthBatch.Evm

namespace Memory

variable (m : Memory) {a b start length : Nat} {data : Bytes} {w : Word}

theorem read_add (start a b : Nat) :
    m.read start (a + b) = m.read start a ++ m.read (start + a) b := by
  simp only [read, List.range_add, List.map_append, List.map_map]
  congr 1
  apply List.map_congr_left
  intro i _
  exact congrArg m (Nat.add_assoc start a i).symm

theorem take_read (h : a ≤ length) : (m.read start length).take a = m.read start a := by
  obtain ⟨b, rfl⟩ := Nat.exists_eq_add_of_le h
  rw [read_add, List.take_left' (length_read m start a)]

theorem write_nil : m.write start [] = m := by
  funext i
  simp [write]

/-- Reading does not see what is written elsewhere. -/
theorem read_write_of_disjoint
    (h : start + length ≤ a ∨ a + data.length ≤ start) :
    (m.write a data).read start length = m.read start length := by
  apply List.map_congr_left
  intro i hi
  rw [List.mem_range] at hi
  exact write_apply_of_not_mem m (by omega)

@[simp] theorem read_writeWord : (m.writeWord a w).read a 32 = Bytes.word w.toNat := by
  have back := read_write m a (Bytes.word w.toNat)
  rwa [Bytes.length_word] at back

theorem read_writeWord_of_disjoint (h : start + length ≤ a ∨ a + 32 ≤ start) :
    (m.writeWord a w).read start length = m.read start length :=
  m.read_write_of_disjoint (by rwa [Bytes.length_word])

@[simp] theorem readWord_writeWord : (m.writeWord a w).readWord a = w := by
  rw [readWord, read_writeWord, Bytes.toNat_word w.isLt, BitVec.ofNat_toNat, BitVec.setWidth_eq]

theorem readWord_write_of_disjoint (h : b + 32 ≤ a ∨ a + data.length ≤ b) :
    (m.write a data).readWord b = m.readWord b := by
  rw [readWord, m.read_write_of_disjoint h, readWord]

theorem readWord_writeWord_of_disjoint (h : b + 32 ≤ a ∨ a + 32 ≤ b) :
    (m.writeWord a w).readWord b = m.readWord b := by
  rw [readWord, m.read_writeWord_of_disjoint h, readWord]

/-- A word of zeros fills up what follows. -/
theorem read_writeWord_zero (h : length ≤ 32) :
    (m.writeWord a 0).read a length = Bytes.zeros length := by
  rw [← take_read _ h, read_writeWord]
  show (Bytes.zeros 32).take length = Bytes.zeros length
  rw [Bytes.zeros, List.take_replicate, Nat.min_eq_left h, Bytes.zeros]

end Memory

/-- All of what the last call returned is there. -/
theorem Machine.returned?_all (s : State) (h : s.returnData.length < 2 ^ 256) :
    returned? s (BitVec.ofNat 256 0).toNat (BitVec.ofNat 256 s.returnData.length).toNat =
      some s.returnData := by
  rw [BitVec.toNat_ofNat, BitVec.toNat_ofNat, Nat.zero_mod, Nat.mod_eq_of_lt h, returned?,
    Nat.zero_add, if_pos (Nat.le_refl _), List.drop_zero, List.take_length]

/-! ## Windows -/

variable {a rest : Bytes} {start length : Nat}

theorem window_append_left : window (a ++ rest) 0 a.length = a := by
  simp [window, Bytes.zeros]

theorem window_append_right (h : a.length ≤ start) :
    window (a ++ rest) start length = window rest (start - a.length) length := by
  rw [window, window, List.drop_append, List.drop_of_length_le h, List.nil_append]

theorem window_drop (data : Bytes) (start k length : Nat) :
    window (data.drop start) k length = window data (start + k) length := by
  rw [window, window, List.drop_drop]

/-- Inside what was written at the start of the memory, its windows are read. -/
theorem Memory.read_write_window (m : Memory) {data : Bytes} (h : start + length ≤ data.length) :
    (m.write 0 data).read start length = window data start length := by
  have whole : ((data.drop start).take length).length = length := by
    rw [List.length_take, List.length_drop]
    omega
  rw [window, whole, Nat.sub_self, Bytes.zeros, List.replicate_zero, List.append_nil]
  apply List.ext_getElem
  · rw [length_read, whole]
  · intro i inside _
    rw [length_read] at inside
    have there : start + i < data.length := by omega
    simp [read, write, there]

/-- The word at an offset of a byte string. -/
def wordAt (data : Bytes) (start : Nat) : Word :=
  BitVec.ofNat 256 (Bytes.toNat (window data start 32))

theorem Memory.readWord_write_wordAt (m : Memory) {data : Bytes} (h : start + 32 ≤ data.length) :
    (m.write 0 data).readWord start = wordAt data start := by
  rw [readWord, m.read_write_window h, wordAt]

theorem wordAt_append_left (h : a.length = 32) :
    wordAt (a ++ rest) 0 = BitVec.ofNat 256 (Bytes.toNat a) := by
  rw [wordAt, ← h, window_append_left]

theorem wordAt_append_right (h : a.length ≤ start) :
    wordAt (a ++ rest) start = wordAt rest (start - a.length) := by
  rw [wordAt, window_append_right h, wordAt]

theorem wordAt_drop (data : Bytes) (start k : Nat) :
    wordAt (data.drop start) k = wordAt data (start + k) := by
  rw [wordAt, window_drop, wordAt]

@[simp] theorem wordAt_word (n : Nat) : wordAt (Bytes.word n ++ rest) 0 = BitVec.ofNat 256 n := by
  rw [wordAt_append_left (Bytes.length_word n), Bytes.word, Bytes.toNat_ofNat, Bytes.capacity_word,
    ← BitVec.toNat_ofNat, BitVec.ofNat_toNat, BitVec.setWidth_eq]

end EthBatch.Evm
