import EthBatch.Proofs.Client.Request

/-!
# What the request of a chunk contains

A request loses nothing of its chunk. Sent to an aggregator, it is the selector and arguments from
which the sub-calls are read back in their order; sent without one, it is the wrapper and arguments
from which the aggregator's code and just those bytes are read back. It does not matter how the
targets of the sub-calls are written, only which addresses they denote, as long as the encoder takes
the spelling.

Requests must be shorter than `2 ^ 63` bytes to be read back, like every byte string there is.
-/

namespace EthBatch

open Abi

/-- Requests of one client that are equal carry the same sub-calls, wherever they go. -/
theorem Client.requestFor_injective (c : Client) {r r' : Route} {calls calls' : List SubCall}
    (same : c.requestFor r calls = c.requestFor r' calls')
    (fits : (c.requestFor r calls).data.length < maxSize) : calls = calls' := by
  have read := c.calls?_requestFor r calls fits
  rw [same, c.calls?_requestFor r' calls' (same ▸ fits)] at read
  exact (Option.some.inj read).symm

section

variable [Platform]

/-- A value that is the sub-call, its target being written in any way that denotes the address and
that the encoder takes. -/
def SubCall.IsSpelledBy (c : SubCall) (v : Value) : Prop :=
  ∃ target data, v = .tuple [target, .bool c.allowFailure, data] ∧
    Kind.addressBytes? target = some c.target.bytes ∧ Kind.isTaken target = true ∧
      data.bytes? = some c.data

/-- All spellings of a sub-call have one encoding. -/
theorem SubCall.IsSpelledBy.encode {c : SubCall} {v : Value} (h : c.IsSpelledBy v) :
    Aggregate.callKind.encode v = .ok c.body := by
  obtain ⟨target, data, rfl, address, taken, bytes⟩ := h
  simp [Aggregate.callKind, Kind.encode, Kind.encodeFields, Value.sequence?, Except.map, address,
    taken, bytes, Kind.part, Kind.isDynamic, Layout.join, Layout.head, Layout.Part.headSize,
    length_target, body]

/-- Values that are the sub-calls of a chunk one by one. -/
def Spelled (chunk : List Value) (calls : List SubCall) : Prop :=
  List.Forall₂ SubCall.IsSpelledBy calls chunk

namespace Spelled

variable {chunk : List Value} {calls : List SubCall}

theorem encodeEach (h : Spelled chunk calls) :
    Kind.encodeEach Aggregate.callKind.encode Aggregate.callKind chunk =
      Kind.encodeEach Aggregate.callKind.encode Aggregate.callKind
        (calls.map SubCall.toValue) := by
  induction h with
  | nil => rfl
  | cons first _ ih =>
      rw [List.map_cons, Kind.encodeEach, Kind.encodeEach, first.encode, SubCall.encode_toValue, ih]

/-- The calldata does not depend on the spelling. -/
theorem encode (h : Spelled chunk calls) :
    Aggregate.encode chunk = .ok (Aggregate.calldata calls) := by
  have count : chunk.length = (calls.map SubCall.toValue).length := by
    rw [List.length_map]
    exact h.length_eq.symm
  rw [← Aggregate.encode_calls]
  simp only [Aggregate.encode, Kind.encodeAll, Kind.encode, Kind.encodeFields, Value.sequence?,
    h.encodeEach, count]
  rfl

theorem request (h : Spelled chunk calls) (c : Client) (address : Option Value)
    (deployless : Bool) (block : Value) : c.request chunk address deployless block =
      .ok (c.requestFor ⟨address, deployless, block⟩ calls) := by
  rw [← c.request_toValue ⟨address, deployless, block⟩ calls, Client.request, Client.request,
    h.encode, Aggregate.encode_calls]

end Spelled

namespace Client

/-- The request of a chunk is the selector with arguments that decode to its sub-calls, or the
wrapper with arguments that decode to the code and to the same bytes. Another chunk has another
request. -/
theorem request_carries_chunk (c : Client) {chunk : List Value} {calls : List SubCall}
    (spelled : Spelled chunk calls) :
    ∃ direct wrapped : Bytes,
      (∀ address block,
        c.request chunk (some address) false block = .ok ⟨some address, direct, block⟩) ∧
      (direct.length < maxSize → ∃ args, direct = Aggregate.selector ++ args ∧
        Kind.decodeAll [.array Aggregate.callKind] args =
          .ok [.tuple (calls.map SubCall.plainValue)]) ∧
      (∀ address deployless block, address = none ∨ deployless = true →
        c.request chunk address deployless block = .ok ⟨none, wrapped, block⟩) ∧
      (wrapped.length < maxSize → ∃ args, wrapped = c.wrapper ++ args ∧
        Kind.decodeAll [.bytes, .bytes] args = .ok [.bytes c.code, .bytes direct]) ∧
      ∀ chunk' calls', Spelled chunk' calls' →
        ∀ address address' deployless deployless' block block' r,
          c.request chunk address deployless block = .ok r →
          c.request chunk' address' deployless' block' = .ok r →
          r.data.length < maxSize → calls = calls' := by
  refine ⟨Aggregate.calldata calls,
    c.wrapper ++ Deployless.arguments c.code (Aggregate.calldata calls), ?_, ?_, ?_, ?_, ?_⟩
  · intro address block
    exact spelled.request c (some address) false block
  · intro fits
    rw [Aggregate.calldata, List.length_append] at fits
    have read := Aggregate.decodeAll_calls (Nat.lt_of_le_of_lt (Nat.le_add_left _ _) fits) []
    rw [List.append_nil] at read
    exact ⟨_, rfl, read⟩
  · intro address deployless block wrapping
    rw [spelled.request]
    rcases wrapping with rfl | rfl
    · rfl
    · cases address <;> rfl
  · intro fits
    rw [List.length_append] at fits
    exact ⟨_, rfl, Aggregate.decodeAll_bytes (Deployless.encodeAll_bytes _ _)
      (Nat.lt_of_le_of_lt (Nat.le_add_left _ _) fits)⟩
  · intro chunk' calls' spelled' address address' deployless deployless' block block' r h h' fits
    rw [spelled.request] at h
    rw [spelled'.request] at h'
    obtain rfl := Except.ok.inj h
    exact c.requestFor_injective (Except.ok.inj h').symm fits

end Client

end

namespace Client

open scoped Platform.Lenient

/-- A client with a wrapper and a code of two bytes each. -/
def terse : Client :=
  { style := .pool, chain := .null, customAddress := none
    settings := ⟨1024, 4, false, none, none, none, none⟩
    registry := .empty, wrapper := [0xfe, 0xed], code := [0x60, 0x01] }

/-- A target without its mark. -/
theorem spelled_unmarked : Spelled
    [.tuple [.text "00000000000000000000000000000000000000ab", .bool true, .bytes [1, 2, 3]]]
    [⟨.ofWord 0xab, true, [1, 2, 3]⟩] :=
  .cons ⟨_, _, rfl, by decide +kernel, rfl, rfl⟩ .nil

/-- Without an address the code and the calldata stand behind the wrapper. -/
theorem request_carries_chunk_wrapped :
    ∃ args inner, terse.request
        [.tuple [.text "00000000000000000000000000000000000000ab", .bool true, .bytes [1, 2, 3]]]
        none false .null = .ok ⟨none, [0xfe, 0xed] ++ args, .null⟩ ∧
      Kind.decodeAll [.bytes, .bytes] args =
        .ok [.bytes [0x60, 0x01], .bytes (Aggregate.selector ++ inner)] ∧
      Kind.decodeAll [.array Aggregate.callKind] inner =
        .ok [.tuple [SubCall.plainValue ⟨.ofWord 0xab, true, [1, 2, 3]⟩]] := by
  obtain ⟨direct, wrapped, plain, arguments, carried, behind, _⟩ :=
    request_carries_chunk terse spelled_unmarked
  have whole := carried none false .null (.inl rfl)
  have bare := plain .null .null
  have size : wrapped.length < maxSize ∧ direct.length < maxSize := by
    have sent := whole
    have called := bare
    rw [spelled_unmarked.request] at sent called
    cases sent
    cases called
    decide +kernel
  obtain ⟨args, rfl, read⟩ := behind size.1
  obtain ⟨inner, rfl, calls⟩ := arguments size.2
  exact ⟨args, inner, whole, read, calls⟩

end Client

end EthBatch
