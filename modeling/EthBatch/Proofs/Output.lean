import EthBatch.Proofs.Abi.Faults
import EthBatch.Proofs.Aggregate

/-!
# Output that is no list of answers

Whatever bytes a node gives, decoding them ends with a list of answers or with a fault that the
format declares, except when the output is `Oversized`: all is in order up to an answer whose byte
string states a length of `2 ^ 63` bytes or more. Nothing needs to stand behind that length.
-/

namespace EthBatch.Aggregate

open Abi Bytes

/-! ## One answer -/

theorem decode_bool (data : Bytes) :
    Kind.decode .bool data = if 32 ≤ data.length then
      if wordAt data 0 ≤ 1 then .ok (.bool (wordAt data 0 = 1)) else .error .padding
    else .error .short := by
  rw [Kind.decode, readWord_eq]
  split
  · rw [Except.ok_bind]
    by_cases zero : wordAt data 0 = 0
    · simp [zero]
    · by_cases one : wordAt data 0 = 1
      · simp [one]
      · rw [if_neg zero, if_neg one, if_neg (by omega)]
  · rfl

theorem isDeclared_of_decode_bool {data : Bytes} {f : DecodeFault}
    (h : Kind.decode .bool data = .error f) : f.isDeclared = true := by
  rw [decode_bool] at h
  split at h
  · split at h
    · cases h
    · cases h
      rfl
  · cases h
    rfl

/-- An answer that is in order, except that the length of its data cannot be read. -/
structure OversizedAnswer (data : Bytes) : Prop where
  flag : wordAt data 0 ≤ 1
  behindHead : 64 ≤ wordAt data 32
  inside : wordAt data 32 + 32 ≤ data.length
  length : maxSize ≤ ceil32 (wordAt data (wordAt data 32))

theorem answerKind_decode (data : Bytes) : answerKind.decode data = (do
    let flag ← Kind.decode .bool data
    let p ← readOffset 64 data (data.drop 32)
    let b ← readBytes (data.drop p)
    Except.ok (.tuple [flag, .bytes b])) := by
  have size : 32 * Kind.headCounts [.bool, .bytes] = 64 := rfl
  simp only [answerKind, Kind.decode.eq_11, Kind.checkHead, Kind.decodeFields, Kind.isDynamic,
    Bool.false_eq_true, if_false, if_true, size, Kind.headSize, Kind.staticSize]
  cases Kind.decode .bool data with
  | error f => rfl
  | ok flag =>
      simp only [Except.ok_bind]
      cases offset : readOffset 64 data (data.drop 32) with
      | error f => rfl
      | ok p =>
          obtain ⟨long, rfl, _, _⟩ := readOffset_drop.mp offset
          simp only [Except.ok_bind, readWord_drop, long, if_true, Kind.decode]
          cases readBytes (data.drop (wordAt data 32)) <;> rfl

theorem decode_answer_eq_tooLong {data : Bytes} :
    answerKind.decode data = .error .tooLong ↔ OversizedAnswer data := by
  rw [answerKind_decode]
  constructor
  · intro h
    obtain ⟨flag, hflag, h⟩ := (Except.bind_eq_error.mp h).resolve_left
      fun h => nomatch isDeclared_of_decode_bool h
    obtain ⟨p, hp, h⟩ := (Except.bind_eq_error.mp h).resolve_left
      fun h => nomatch isDeclared_of_readOffset h
    obtain ⟨long, rfl, low, high⟩ := readOffset_drop.mp hp
    have large := (Except.bind_eq_error.mp h).resolve_right (by simp)
    rw [readBytes_eq_tooLong, wordAt_drop, List.length_drop] at large
    have small : wordAt data 0 ≤ 1 := by
      rw [decode_bool] at hflag
      by_cases h : wordAt data 0 ≤ 1
      · exact h
      · rw [if_pos (by omega), if_neg h] at hflag
        cases hflag
    exact ⟨small, low, by omega, large.2⟩
  · rintro ⟨flag, low, inside, large⟩
    have offset : readOffset 64 data (data.drop 32) = .ok (wordAt data 32) :=
      readOffset_drop.mpr ⟨by omega, rfl, low, by omega⟩
    have bytes : readBytes (data.drop (wordAt data 32)) = .error .tooLong := by
      rw [readBytes_eq_tooLong, wordAt_drop, List.length_drop]
      exact ⟨by omega, large⟩
    rw [decode_bool, if_pos (by omega), if_pos flag, Except.ok_bind, offset, Except.ok_bind, bytes,
      Except.error_bind]

theorem isDeclared_of_decode_answer {data : Bytes} {f : DecodeFault}
    (h : answerKind.decode data = .error f) : f.isDeclared = true ∨ f = .tooLong := by
  rw [answerKind_decode] at h
  rcases Except.bind_eq_error.mp h with h | ⟨flag, _, h⟩
  · exact .inl (isDeclared_of_decode_bool h)
  · rcases Except.bind_eq_error.mp h with h | ⟨p, _, h⟩
    · exact .inl (isDeclared_of_readOffset h)
    · rcases Except.bind_eq_error.mp h with h | ⟨b, _, h⟩
      · exact isDeclared_of_readBytes h
      · cases h

/-! ## A list of answers -/

/-- Output whose offsets are in order, and whose first answer that does not decode states a length
that cannot be read. -/
structure Oversized (raw : Bytes) : Prop where
  behindHead : 32 ≤ wordAt raw 0
  inside : wordAt raw 0 + 32 ≤ raw.length
  offsets : ∀ j < wordAt raw (wordAt raw 0),
    32 * j + 32 ≤ (raw.drop (wordAt raw 0 + 32)).length ∧
    32 * wordAt raw (wordAt raw 0) ≤ wordAt raw (wordAt raw 0 + 32 + 32 * j) ∧
    wordAt raw (wordAt raw 0 + 32 + 32 * j) < (raw.drop (wordAt raw 0 + 32)).length
  answer : ∃ i < wordAt raw (wordAt raw 0),
    (∀ j < i, ∃ v, answerKind.decode ((raw.drop (wordAt raw 0 + 32)).drop
      (wordAt raw (wordAt raw 0 + 32 + 32 * j))) = .ok v) ∧
    OversizedAnswer ((raw.drop (wordAt raw 0 + 32)).drop
      (wordAt raw (wordAt raw 0 + 32 + 32 * i)))

theorem decodeAll_answers (raw : Bytes) : Kind.decodeAll [.array answerKind] raw = (do
    let p ← readOffset 32 raw raw
    let n ← readWord (raw.drop p)
    checkOffsets (32 * n) ((raw.drop p).drop 32) n ((raw.drop p).drop 32)
    let vs ← followEach answerKind.decode ((raw.drop p).drop 32) n ((raw.drop p).drop 32)
    Except.ok [.tuple vs]) := by
  have size : 32 * Kind.headCounts [.array answerKind] = 32 := rfl
  have dynamic : answerKind.isDynamic = true := rfl
  simp only [Kind.decodeAll, Kind.checkHead, Kind.decodeFields, Kind.isDynamic, if_true, size,
    Kind.decode, readItems, dynamic]
  cases offset : readOffset 32 raw raw with
  | error f => rfl
  | ok p =>
      have first := @readOffset_drop 32 0 p raw raw
      rw [List.drop_zero] at first
      obtain ⟨long, rfl, _, _⟩ := first.mp offset
      simp only [Except.ok_bind, readWord_eq raw, show 32 ≤ raw.length by omega, if_true]
      cases readWord (raw.drop (wordAt raw 0)) with
      | error f => rfl
      | ok n =>
          simp only [Except.ok_bind]
          cases checkOffsets (32 * n) ((raw.drop (wordAt raw 0)).drop 32) n
              ((raw.drop (wordAt raw 0)).drop 32) with
          | error f => rfl
          | ok _ =>
              simp only [Except.ok_bind]
              cases followEach answerKind.decode ((raw.drop (wordAt raw 0)).drop 32) n
                ((raw.drop (wordAt raw 0)).drop 32) <;> rfl

theorem decodeAll_eq_tooLong {raw : Bytes} :
    Kind.decodeAll [.array answerKind] raw = .error .tooLong ↔ Oversized raw := by
  have first := @readOffset_drop 32 0
  simp only [List.drop_zero] at first
  rw [decodeAll_answers]
  constructor
  · intro h
    obtain ⟨p, hp, h⟩ := (Except.bind_eq_error.mp h).resolve_left
      fun h => nomatch isDeclared_of_readOffset h
    obtain ⟨_, rfl, low, high⟩ := first.mp hp
    rw [readWord_drop] at h
    by_cases inside : wordAt raw 0 + 32 ≤ raw.length
    · rw [if_pos inside, Except.ok_bind, List.drop_drop] at h
      obtain ⟨_, check, h⟩ := (Except.bind_eq_error.mp h).resolve_left
        fun h => nomatch isDeclared_of_checkOffsets h
      have offsets := checkOffsets_eq_ok.mp check
      simp only [wordAt_drop] at offsets
      have items := (Except.bind_eq_error.mp h).resolve_right (by simp)
      have long : 32 * wordAt raw (wordAt raw 0) ≤ (raw.drop (wordAt raw 0 + 32)).length := by
        cases count : wordAt raw (wordAt raw 0) with
        | zero => omega
        | succ n =>
            have := offsets n (by omega)
            omega
      obtain ⟨i, hi, before, here⟩ := (followEach_eq_error long).mp items
      simp only [wordAt_drop] at before here
      exact ⟨low, inside, offsets, i, hi, before, decode_answer_eq_tooLong.mp here⟩
    · simp [inside] at h
  · rintro ⟨low, inside, offsets, i, hi, before, here⟩
    have offset : readOffset 32 raw raw = .ok (wordAt raw 0) :=
      first.mpr ⟨by omega, rfl, low, by omega⟩
    have check : checkOffsets (32 * wordAt raw (wordAt raw 0)) (raw.drop (wordAt raw 0 + 32))
        (wordAt raw (wordAt raw 0)) (raw.drop (wordAt raw 0 + 32)) = .ok () := by
      rw [checkOffsets_eq_ok]
      simpa only [wordAt_drop] using offsets
    have long : 32 * wordAt raw (wordAt raw 0) ≤ (raw.drop (wordAt raw 0 + 32)).length := by
      have := offsets (wordAt raw (wordAt raw 0) - 1) (by omega)
      omega
    have items : followEach answerKind.decode (raw.drop (wordAt raw 0 + 32))
        (wordAt raw (wordAt raw 0)) (raw.drop (wordAt raw 0 + 32)) = .error .tooLong := by
      rw [followEach_eq_error long]
      simp only [wordAt_drop]
      exact ⟨i, hi, before, decode_answer_eq_tooLong.mpr here⟩
    rw [offset, Except.ok_bind, readWord_drop, if_pos inside, Except.ok_bind, List.drop_drop, check,
      Except.ok_bind, items, Except.error_bind]

theorem isDeclared_of_decodeAll {raw : Bytes} {f : DecodeFault}
    (h : Kind.decodeAll [.array answerKind] raw = .error f) :
    f.isDeclared = true ∨ f = .tooLong := by
  rw [decodeAll_answers] at h
  rcases Except.bind_eq_error.mp h with h | ⟨p, _, h⟩
  · exact .inl (isDeclared_of_readOffset h)
  · rcases Except.bind_eq_error.mp h with h | ⟨n, _, h⟩
    · rw [readWord_drop] at h
      split at h
      · cases h
      · cases h
        exact .inl rfl
    · rcases Except.bind_eq_error.mp h with h | ⟨_, check, h⟩
      · exact .inl (isDeclared_of_checkOffsets h)
      · rcases Except.bind_eq_error.mp h with h | ⟨vs, _, h⟩
        · have offsets := checkOffsets_eq_ok.mp check
          have long : 32 * n ≤ ((raw.drop p).drop 32).length := by
            cases n with
            | zero => omega
            | succ n =>
                have := offsets n (by omega)
                omega
          obtain ⟨i, _, _, here⟩ := (followEach_eq_error long).mp h
          exact isDeclared_of_decode_answer here
        · cases h

/-- The only fault outside the format's own is that of oversized output. -/
theorem decode_eq_undeclared {raw : Bytes} {f : DecodeFault} :
    (decode raw = .error (.undecodable f) ∧ f.isDeclared = false) ↔
      f = .tooLong ∧ Oversized raw := by
  constructor
  · rintro ⟨h, undeclared⟩
    unfold decode at h
    split at h
    · cases h
    · split at h
      · cases h
      · cases h
      · next fault =>
        cases h
        rcases isDeclared_of_decodeAll fault with declared | rfl
        · rw [declared] at undeclared
          cases undeclared
        · exact ⟨rfl, decodeAll_eq_tooLong.mp fault⟩
  · rintro ⟨rfl, oversized⟩
    have some : raw.isEmpty = false := by
      have := oversized.inside
      cases raw with
      | nil => simp at this
      | cons x raw => rfl
    refine ⟨?_, rfl⟩
    simp only [decode, some, Bool.false_eq_true, if_false, decodeAll_eq_tooLong.mpr oversized]

end EthBatch.Aggregate
