import EthBatch.Abi.Decode
import EthBatch.Proofs.Abi.RoundTrip

/-!
# Which faults decoding meets

The readers of words, offsets and byte strings say exactly when they fail. An array of dynamic
items fails with the fault of its first bad item once its offsets are in order.
-/

namespace EthBatch

/-- The number in the word at an offset. -/
def Bytes.wordAt (b : Bytes) (i : Nat) : Nat := toNat ((b.drop i).take 32)

theorem Bytes.wordAt_drop (b : Bytes) (m i : Nat) : wordAt (b.drop m) i = wordAt b (m + i) := by
  rw [wordAt, List.drop_drop, wordAt]

namespace Abi

open Bytes (wordAt wordAt_drop)

theorem readWord_drop (data : Bytes) (i : Nat) :
    readWord (data.drop i) =
      if i + 32 ≤ data.length then .ok (wordAt data i) else .error .short := by
  have length : ((data.drop i).take 32).length = 32 ↔ i + 32 ≤ data.length := by
    rw [List.length_take, List.length_drop]
    omega
  by_cases h : i + 32 ≤ data.length
  · rw [readWord, if_pos (length.mpr h), if_pos h, wordAt]
  · rw [readWord, if_neg (mt length.mp h), if_neg h]

theorem readWord_eq (data : Bytes) :
    readWord data = if 32 ≤ data.length then .ok (wordAt data 0) else .error .short := by
  simpa using readWord_drop data 0

theorem readOffset_drop {head i p : Nat} {frame data : Bytes} :
    readOffset head frame (data.drop i) = .ok p ↔
      i + 32 ≤ data.length ∧ wordAt data i = p ∧ head ≤ p ∧ p < frame.length := by
  rw [readOffset, readWord_drop]
  by_cases long : i + 32 ≤ data.length
  · rw [if_pos long, Except.ok_bind]
    split
    · next outside =>
      simp only [Bool.or_eq_true, decide_eq_true_eq] at outside
      simp only [reduceCtorEq, false_iff]
      omega
    · next inside =>
      simp only [Bool.or_eq_true, decide_eq_true_eq] at inside
      rw [Except.ok.injEq]
      omega
  · rw [if_neg long]
    simp [long]

theorem isDeclared_of_readOffset {head : Nat} {frame data : Bytes} {f : DecodeFault}
    (h : readOffset head frame data = .error f) : f.isDeclared = true := by
  rw [readOffset, readWord_eq] at h
  split at h
  · rw [Except.ok_bind] at h
    split at h
    · cases h
      rfl
    · cases h
  · cases h
    rfl

/-- A length is too large to be read if its padded size is, whatever stands behind it. -/
theorem readBytes_eq_tooLong {data : Bytes} :
    readBytes data = .error .tooLong ↔
      32 ≤ data.length ∧ maxSize ≤ Bytes.ceil32 (wordAt data 0) := by
  rw [readBytes, readWord_eq]
  by_cases long : 32 ≤ data.length
  · rw [if_pos long, Except.ok_bind]
    by_cases large : maxSize ≤ Bytes.ceil32 (wordAt data 0)
    · simp only [long, large, and_self, iff_true]
      exact if_pos large
    · simp only [large, and_false, iff_false]
      rw [if_neg (show ¬ Nat.pow 2 63 ≤ _ from large)]
      split
      · simp
      · split <;> simp
  · simp [long]

theorem isDeclared_of_readBytes {data : Bytes} {f : DecodeFault}
    (h : readBytes data = .error f) : f.isDeclared = true ∨ f = .tooLong := by
  rw [readBytes, readWord_eq] at h
  split at h
  · rw [Except.ok_bind] at h
    dsimp only at h
    split at h
    · cases h
      exact .inr rfl
    · split at h
      · cases h
        exact .inl rfl
      · split at h
        · cases h
          exact .inl rfl
        · cases h
  · cases h
    exact .inl rfl

/-- Data with a length word are that word and what stands behind it. -/
theorem eq_word_append {data : Bytes} (long : 32 ≤ data.length) :
    data = Bytes.word (wordAt data 0) ++ data.drop 32 := by
  have size : (data.take 32).length = 32 := by rw [List.length_take]; omega
  have word : Bytes.word (wordAt data 0) = data.take 32 := by
    have written := Bytes.ofNat_toNat (data.take 32)
    rwa [size] at written
  rw [word, List.take_append_drop]

/-- A byte string whose padding is zero, and nothing else, is padded to whole words. -/
theorem eq_padEnd {body : Bytes} {n : Nat} (size : body.length = Bytes.ceil32 n)
    (padding : (body.drop n).any (· ≠ 0) = false) : body = Bytes.padEnd (body.take n) := by
  have le := Bytes.le_ceil32 n
  have length : (body.take n).length = n := by rw [List.length_take]; omega
  have zeros : body.drop n = Bytes.zeros (Bytes.ceil32 n - n) := by
    rw [Bytes.zeros, List.eq_replicate_iff]
    refine ⟨by rw [List.length_drop]; omega, ?_⟩
    intro x hx
    simpa using List.any_eq_false.mp padding x hx
  rw [Bytes.padEnd, length, ← zeros, List.take_append_drop]

/-- Reading a byte string succeeds exactly on its encoding, with anything behind it. -/
theorem readBytes_eq_ok {data b : Bytes} : readBytes data = .ok b ↔
    Bytes.ceil32 b.length < maxSize ∧ ∃ rest, data = Kind.encodeBytes b ++ rest := by
  constructor
  · intro h
    rw [readBytes, readWord_eq] at h
    by_cases long : 32 ≤ data.length
    · rw [if_pos long, Except.ok_bind] at h
      generalize hn : wordAt data 0 = n at h
      by_cases large : maxSize ≤ Bytes.ceil32 n
      · rw [if_pos (show Nat.pow 2 63 ≤ _ from large)] at h
        cases h
      · rw [if_neg (show ¬ Nat.pow 2 63 ≤ _ from large)] at h
        generalize hbody : (data.drop 32).take (Bytes.ceil32 n) = body at h
        by_cases short : body.length < Bytes.ceil32 n
        · rw [if_pos short] at h
          cases h
        · rw [if_neg short] at h
          split at h
          · cases h
          · next padding =>
            obtain rfl := Except.ok.inj h
            have size : body.length = Bytes.ceil32 n := by
              have : body.length ≤ Bytes.ceil32 n := by rw [← hbody]; exact List.length_take_le _ _
              omega
            have length : (body.take n).length = n := by
              have := Bytes.le_ceil32 n
              rw [List.length_take]
              omega
            refine ⟨by rw [length]; omega, (data.drop 32).drop (Bytes.ceil32 n), ?_⟩
            rw [Kind.encodeBytes, length, ← eq_padEnd size (by simpa using padding), ← hbody,
              List.append_assoc, List.take_append_drop, ← hn]
            exact eq_word_append long
    · rw [if_neg long] at h
      cases h
  · rintro ⟨small, rest, whole⟩
    rw [whole]
    exact readBytes_encodeBytes small rest

/-! ## Arrays of dynamic items -/

section Items

variable {item : Bytes → Except DecodeFault Value} {head n : Nat} {frame data : Bytes}

/-- The offsets are in order if there is one for each item and each leads behind the head and not
behind the data. -/
theorem checkOffsets_eq_ok : checkOffsets head frame n data = .ok () ↔
    ∀ j < n, 32 * j + 32 ≤ data.length ∧ head ≤ wordAt data (32 * j) ∧
      wordAt data (32 * j) < frame.length := by
  induction n generalizing data with
  | zero => simp [checkOffsets]
  | succ n ih =>
      simp only [checkOffsets, Except.bind_eq_ok, ih, wordAt_drop, List.length_drop]
      have first := @readOffset_drop head 0
      simp only [List.drop_zero] at first
      constructor
      · rintro ⟨p, hp, rest⟩ j hj
        obtain ⟨long, rfl, low, high⟩ := first.mp hp
        cases j with
        | zero => exact ⟨by omega, low, high⟩
        | succ j =>
            have := rest j (by omega)
            rw [Nat.mul_succ, Nat.add_comm (32 * j) 32]
            exact ⟨by omega, this.2⟩
      · intro all
        obtain ⟨long, low, high⟩ := all 0 (by omega)
        refine ⟨_, first.mpr ⟨by omega, rfl, low, high⟩, ?_⟩
        intro j hj
        have := all (j + 1) (by omega)
        rw [Nat.mul_succ, Nat.add_comm (32 * j) 32] at this
        exact ⟨by omega, this.2⟩

theorem isDeclared_of_checkOffsets {f : DecodeFault}
    (h : checkOffsets head frame n data = .error f) : f.isDeclared = true := by
  induction n generalizing data with
  | zero => cases h
  | succ n ih =>
      rcases Except.bind_eq_error.mp h with h | ⟨p, _, h⟩
      · exact isDeclared_of_readOffset h
      · exact ih h

/-- With an offset for each item, the fault is that of the first item that does not decode. -/
theorem followEach_eq_error {f : DecodeFault} (long : 32 * n ≤ data.length) :
    followEach item frame n data = .error f ↔
      ∃ i < n, (∀ j < i, ∃ v, item (frame.drop (wordAt data (32 * j))) = .ok v) ∧
        item (frame.drop (wordAt data (32 * i))) = .error f := by
  induction n generalizing data with
  | zero => simp [followEach]
  | succ n ih =>
      have rest := @ih (data.drop 32) (by rw [List.length_drop]; omega)
      simp only [wordAt_drop, Nat.add_comm 32, ← Nat.mul_succ] at rest
      rw [followEach, readWord_eq, if_pos (by omega), Except.ok_bind]
      cases first : item (frame.drop (wordAt data 0)) with
      | error g =>
          simp only [Except.error_bind, Except.error.injEq]
          constructor
          · rintro rfl
            exact ⟨0, by omega, fun j hj => absurd hj (Nat.not_lt_zero j), by simpa using first⟩
          · rintro ⟨i, _, before, here⟩
            cases i with
            | zero => simpa [first] using here
            | succ i =>
                obtain ⟨v, hv⟩ := before 0 (by omega)
                simp [first] at hv
      | ok v =>
          rw [Except.ok_bind, Except.bind_eq_error, rest]
          constructor
          · rintro (⟨i, hi, before, here⟩ | ⟨vs, _, h⟩)
            · refine ⟨i + 1, by omega, ?_, here⟩
              intro j hj
              cases j with
              | zero => exact ⟨v, by simpa using first⟩
              | succ j => exact before j (by omega)
            · cases h
          · rintro ⟨i, hi, before, here⟩
            cases i with
            | zero => simp [first] at here
            | succ i =>
                exact .inl ⟨i, by omega, fun j hj => before (j + 1) (by omega), here⟩

end Items

end Abi

end EthBatch
