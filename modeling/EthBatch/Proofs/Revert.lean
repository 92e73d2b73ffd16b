import EthBatch.Proofs.Abi.Overlong
import EthBatch.Revert

/-!
# Revert data that cannot be read

Revert data of any shape have a reason or none, with two exceptions. Both begin with the selector
of `Error(string)`, and in both the offset of the text is in order. Either the text states a length
of `2 ^ 63` bytes or more, or it is there in full, with its padding, and is not UTF-8. Reading such
data ends in a fault instead of a revert without a reason.
-/

namespace EthBatch

open Bytes (wordAt ceil32)

namespace Revert

open Abi

/-- Revert data whose reason cannot be read, and the fault that this ends in. -/
inductive Unreadable : Bytes → DecodeFault → Prop where
  /-- The text states a length that cannot be read. -/
  | length {payload : Bytes} (behindHead : 32 ≤ wordAt payload 0)
      (inside : wordAt payload 0 + 32 ≤ payload.length)
      (large : maxSize ≤ ceil32 (wordAt payload (wordAt payload 0))) :
      Unreadable (errorSelector ++ payload) .tooLong
  /-- The text is no text. -/
  | text {payload b rest : Bytes} (behindHead : 32 ≤ wordAt payload 0)
      (whole : payload.drop (wordAt payload 0) = Kind.encodeBytes b ++ rest)
      (small : ceil32 b.length < maxSize) (garbled : Text.Utf8.decode? b = none) :
      Unreadable (errorSelector ++ payload) .notUtf8

variable {data : Bytes} {f : DecodeFault}

theorem payload_eq_error {k : Kind} : payload k data = .error f ↔
    Kind.decodeAll [k] data = .error f ∧ f.isDeclared = false := by
  unfold payload
  cases Kind.decodeAll [k] data with
  | ok vs => simp
  | error g =>
      by_cases declared : g.isDeclared = true
      · simp only [declared, if_true, reduceCtorEq, Except.error.injEq, false_iff]
        rintro ⟨rfl, undeclared⟩
        simp [declared] at undeclared
      · simp only [declared, Bool.false_eq_true, if_false, Except.error.injEq]
        constructor
        · rintro rfl
          exact ⟨rfl, by simpa using declared⟩
        · exact fun h => h.1

/-- A single text stands behind an offset. -/
theorem decodeAll_string (data : Bytes) : Kind.decodeAll [.string] data = (do
    let p ← readOffset 32 data data
    let v ← Kind.decode .string (data.drop p)
    Except.ok [v]) := by
  have size : 32 * Kind.headCounts [.string] = 32 := rfl
  have first := @readOffset_drop 32 0
  simp only [List.drop_zero] at first
  simp only [Kind.decodeAll, Kind.checkHead, Kind.decodeFields, Kind.isDynamic, if_true, size]
  cases offset : readOffset 32 data data with
  | error f => rfl
  | ok p =>
      obtain ⟨long, rfl, _, _⟩ := first.mp offset
      simp only [Except.ok_bind, readWord_eq, show 32 ≤ data.length by omega, if_true]

/-- The faults of a text that the format does not declare. -/
theorem decode_string_eq_undeclared :
    (Kind.decode .string data = .error f ∧ f.isDeclared = false) ↔
      (f = .tooLong ∧ 32 ≤ data.length ∧ maxSize ≤ ceil32 (wordAt data 0)) ∨
      (f = .notUtf8 ∧ ∃ b rest, data = Kind.encodeBytes b ++ rest ∧
        ceil32 b.length < maxSize ∧ Text.Utf8.decode? b = none) := by
  rw [Kind.decode, Except.bind_eq_error]
  constructor
  · rintro ⟨h | ⟨b, read, h⟩, undeclared⟩
    · rcases isDeclared_of_readBytes h with declared | rfl
      · simp [declared] at undeclared
      · exact .inl ⟨rfl, readBytes_eq_tooLong.mp h⟩
    · obtain ⟨small, rest, whole⟩ := readBytes_eq_ok.mp read
      split at h
      · cases h
      · next garbled =>
        cases h
        exact .inr ⟨rfl, b, rest, whole, small, garbled⟩
  · rintro (⟨rfl, large⟩ | ⟨rfl, b, rest, whole, small, garbled⟩)
    · exact ⟨.inl (readBytes_eq_tooLong.mpr large), rfl⟩
    · refine ⟨.inr ⟨b, readBytes_eq_ok.mpr ⟨small, rest, whole⟩, ?_⟩, rfl⟩
      rw [garbled]

/-- The number of a panic decodes or is refused as the format says. -/
theorem isDeclared_of_decodeAll_uint {bits : Nat}
    (h : Kind.decodeAll [.uint bits] data = .error f) : f.isDeclared = true := by
  have declared (g : DecodeFault) (hg : Kind.decode (.uint bits) data = .error g) :
      g.isDeclared = true := by
    rw [Kind.decode, Except.map_eq_error] at hg
    rcases Except.bind_eq_error.mp hg with hg | ⟨n, _, hg⟩
    · exact isDeclared_of_readUint hg
    · cases hg
  simp only [Kind.decodeAll, Kind.checkHead, Kind.decodeFields, Kind.isDynamic,
    Bool.false_eq_true, if_false] at h
  cases first : Kind.decode (.uint bits) data with
  | error g =>
      rw [first] at h
      cases h
      exact declared f first
  | ok v =>
      rw [first] at h
      cases h

/-- Behind the selector of a text, the fault is one of the offset or one of the text. -/
theorem decodeAll_string_eq_undeclared :
    (Kind.decodeAll [.string] data = .error f ∧ f.isDeclared = false) ↔
      Unreadable (errorSelector ++ data) f := by
  have offset := @readOffset_drop 32 0 (wordAt data 0) data data
  simp only [List.drop_zero, true_and] at offset
  rw [decodeAll_string, Except.bind_eq_error]
  constructor
  · rintro ⟨h | ⟨p, found, h⟩, undeclared⟩
    · simp [isDeclared_of_readOffset h] at undeclared
    · have h := (Except.bind_eq_error.mp h).resolve_right (by simp)
      obtain rfl : wordAt data 0 = p := by
        have place := @readOffset_drop 32 0 p data data
        simp only [List.drop_zero] at place
        exact (place.mp found).2.1
      obtain ⟨_, behindHead, _⟩ := offset.mp found
      rcases decode_string_eq_undeclared.mp ⟨h, undeclared⟩ with
        ⟨rfl, long, large⟩ | ⟨rfl, b, rest, whole, small, garbled⟩
      · rw [List.length_drop] at long
        rw [Bytes.wordAt_drop, Nat.add_zero] at large
        exact .length behindHead (by omega) large
      · exact .text behindHead whole small garbled
  · intro h
    generalize hd : errorSelector ++ data = d at h
    cases h with
    | length behindHead inside large =>
        obtain rfl := List.append_cancel_left hd
        have found := offset.mpr ⟨by omega, behindHead, by omega⟩
        have here := decode_string_eq_undeclared.mpr (.inl ⟨rfl,
          show 32 ≤ (data.drop (wordAt data 0)).length by rw [List.length_drop]; omega,
          by rwa [Bytes.wordAt_drop, Nat.add_zero]⟩)
        exact ⟨.inr ⟨_, found, Except.bind_eq_error.mpr (.inl here.1)⟩, here.2⟩
    | text behindHead whole small garbled =>
        obtain rfl := List.append_cancel_left hd
        have size := congrArg List.length whole
        simp only [Kind.encodeBytes, List.length_drop, List.length_append, Bytes.length_word]
          at size
        have found := offset.mpr ⟨by omega, behindHead, by omega⟩
        have here := decode_string_eq_undeclared.mpr (.inr ⟨rfl, _, _, whole, small, garbled⟩)
        exact ⟨.inr ⟨_, found, Except.bind_eq_error.mpr (.inl here.1)⟩, here.2⟩

theorem Unreadable.take_four (h : Unreadable data f) : data.take 4 = errorSelector := by
  cases h <;> rfl

/-- Reading the reason fails on unreadable data only. -/
theorem reasonOfData_eq_error : reasonOfData data = .error f ↔ Unreadable data f := by
  rw [reasonOfData]
  by_cases selector : data.take 4 = errorSelector
  · have whole : errorSelector ++ data.drop 4 = data := by rw [← selector, List.take_append_drop]
    rw [if_pos selector, payload_eq_error, decodeAll_string_eq_undeclared, whole]
  · rw [if_neg selector]
    constructor
    · intro h
      -- A panic has a number for a payload, and a number in one word has declared faults only.
      split at h
      · obtain ⟨h, undeclared⟩ := payload_eq_error.mp h
        simp [isDeclared_of_decodeAll_uint h] at undeclared
      · cases h
    · intro h
      exact absurd h.take_four selector

/-- Every revert has a reason or none, unless its data are unreadable. -/
theorem read_eq_error : read data = .error f ↔ Unreadable data f := by
  rw [read, Except.map_eq_error, reasonOfData_eq_error]

end Revert

end EthBatch
