import EthBatch.Proofs.Abi.Truncation
import EthBatch.Proofs.Aggregate

/-!
# Output that breaks off

The answers of an aggregator are read back from their encoding, and from nothing less: output that
breaks off, in a word, among the offsets or in the padding of the last answer, is refused. It is
never taken for fewer answers or for other ones.

Output must be shorter than `2 ^ 63` bytes to be read back, like every byte string there is.
-/

namespace EthBatch.Aggregate

open Abi

/-- Output that is refused as none of the format: there is nothing, or it meets a fault that the
format declares. -/
def IsRejected (raw : Bytes) : Prop :=
  decode raw = .error .empty ∨ ∃ f, f.isDeclared = true ∧ decode raw = .error (.undecodable f)

theorem isRejected_of_isRefused {raw : Bytes}
    (h : IsRefused (Kind.decodeAll [.array answerKind] raw)) : IsRejected raw := by
  obtain ⟨f, refused, declared⟩ := h
  by_cases empty : raw.isEmpty = true
  · exact .inl (by rw [decode, if_pos empty])
  · exact .inr ⟨f, declared, by rw [decode, if_neg empty, refused]⟩

/-- Every list of answers has an encoding; it is read back as that list, and everything that it
only begins with is refused. -/
theorem read_whole_or_rejected [Platform] (answers : List Answer) :
    ∃ raw, encodeAnswers answers = .ok raw ∧
      (raw.length < maxSize → decode raw = .ok answers ∧
        ∀ cut, cut <+: raw → cut ≠ raw → IsRejected cut) := by
  refine ⟨response answers, encodeAnswers_eq answers, fun fits => ⟨?_, ?_⟩⟩
  · simpa using decode_response fits []
  · intro cut start broken
    have short : cut.length < (response answers).length :=
      Nat.lt_of_le_of_ne start.length_le fun same => broken (start.eq_of_length same)
    have regular : (Kind.tuple [.array answerKind]).isRegular = true := rfl
    rw [List.prefix_iff_eq_take.mp start]
    exact isRejected_of_isRefused
      (Kind.isRefused_decodeAll_take regular (encodeAnswers_eq answers) fits short)

open scoped Platform.Lenient

/-- Two answers without the last byte of the padding. -/
theorem read_whole_or_rejected_padding :
    IsRejected (response [⟨false, []⟩, ⟨true, [1]⟩]).dropLast := by
  obtain ⟨raw, written, whole⟩ := read_whole_or_rejected [⟨false, []⟩, ⟨true, [1]⟩]
  obtain rfl := Except.ok.inj ((encodeAnswers_eq _).symm.trans written)
  have size : (response [⟨false, []⟩, ⟨true, [1]⟩]).length = 352 := by
    rw [length_response]
    rfl
  refine (whole (by rw [size]; decide)).2 _ (List.dropLast_prefix _) fun same => ?_
  have shorter := congrArg List.length same
  rw [List.length_dropLast, size] at shorter
  omega

end EthBatch.Aggregate
