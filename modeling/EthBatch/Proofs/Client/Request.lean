import EthBatch.Client.Run
import EthBatch.Proofs.Aggregate

/-!
# The request of a chunk

There is a request for every chunk of calls, and it carries the calls of the chunk: a node that
reads it finds them again, whether they are sent to an aggregator or travel with its code.
-/

namespace EthBatch

open Abi

namespace Deployless

/-- The arguments behind a wrapper. -/
def arguments (code data : Bytes) : Bytes :=
  Layout.join [⟨true, Kind.encodeBytes code⟩, ⟨true, Kind.encodeBytes data⟩]

theorem encodeAll_bytes [Platform] (code data : Bytes) :
    Kind.encodeAll [.bytes, .bytes] [.bytes code, .bytes data] = .ok (arguments code data) := by
  simp [Kind.encodeAll, Kind.encode, Kind.encodeFields, Value.sequence?, Value.bytes?,
    Except.map, Kind.part, Kind.isDynamic, arguments]

theorem wrap_bytes [Platform] (wrapper code data : Bytes) :
    wrap wrapper (.bytes code) (.bytes data) = .ok (wrapper ++ arguments code data) := by
  rw [wrap, encodeAll_bytes]
  rfl

theorem length_arguments (code data : Bytes) :
    (arguments code data).length =
      0x80 + Bytes.ceil32 code.length + Bytes.ceil32 data.length := by
  simp [arguments, Layout.length_join, Layout.Part.headSize, Kind.encodeBytes, Bytes.length_padEnd]
  omega

end Deployless

namespace Client

/-- Where requests go: to an address, or to none, and at which block. -/
structure Route where
  address : Option Value
  deployless : Bool
  block : Value

/-- The request of a chunk of calls. -/
def requestFor (c : Client) (r : Route) (chunk : List SubCall) : Request :=
  match r.address, r.deployless with
  | some address, false => ⟨some address, Aggregate.calldata chunk, r.block⟩
  | _, _ =>
    ⟨none, c.wrapper ++ Deployless.arguments c.code (Aggregate.calldata chunk), r.block⟩

/-- What a node does with the request of a chunk. -/
def reaction (c : Client) (node : Node) (r : Route) (index : Nat) (chunk : List SubCall) :
    Reaction :=
  node.react index (c.requestFor r chunk)

variable (c : Client) (r : Route) (chunk : List SubCall)

/-- Every chunk of calls has a request. -/
theorem request_toValue [Platform] :
    c.request (chunk.map SubCall.toValue) r.address r.deployless r.block =
      .ok (c.requestFor r chunk) := by
  obtain ⟨address, deployless, block⟩ := r
  simp only [request, Aggregate.encode_calls, Except.ok_bind, requestFor]
  cases address with
  | none => simp [Deployless.wrap_bytes]
  | some address => cases deployless <;> simp [Deployless.wrap_bytes]

/-- The attempt at a chunk is decided by what the node does with its request. -/
theorem attempt_toValue [Platform] (node : Node) (index : Nat) :
    c.attempt (node.react index) index (chunk.map SubCall.toValue) r.address r.deployless r.block =
      ⟨some (c.requestFor r chunk),
        settleReaction index chunk.length (c.reaction node r index chunk)⟩ := by
  simp only [attempt, request_toValue, List.length_map, reaction]

/-- A node finds the calls of a chunk in its request. -/
theorem calls?_requestFor (fits : (c.requestFor r chunk).data.length < maxSize) :
    (c.requestFor r chunk).calls? c.wrapper = some chunk := by
  let _ : Platform := .lenient
  obtain ⟨address, deployless, block⟩ := r
  have wrapped (h : (c.wrapper ++
        Deployless.arguments c.code (Aggregate.calldata chunk)).length < maxSize) :
      (Aggregate.unwrap? c.wrapper (c.wrapper ++ Deployless.arguments c.code
        (Aggregate.calldata chunk))).bind (fun p => Aggregate.decodeCalls? p.2) = some chunk := by
    rw [Aggregate.unwrap?_wrap (Deployless.wrap_bytes _ _ _) h, Option.bind_some]
    have inner : (Aggregate.calldata chunk).length < maxSize := by
      have := Bytes.le_ceil32 (Aggregate.calldata chunk).length
      rw [List.length_append, Deployless.length_arguments] at h
      omega
    have read := Aggregate.decodeCalls?_calldata inner []
    rwa [List.append_nil] at read
  have direct (h : (Aggregate.calldata chunk).length < maxSize) :
      Aggregate.decodeCalls? (Aggregate.calldata chunk) = some chunk := by
    have read := Aggregate.decodeCalls?_calldata h []
    rwa [List.append_nil] at read
  cases address with
  | none => exact wrapped fits
  | some address =>
      cases deployless with
      | false => exact direct fits
      | true => exact wrapped fits

/-- Fewer calls make a smaller request. -/
theorem length_requestFor_le {chunk more : List SubCall} (h : chunk.Sublist more) :
    (c.requestFor r chunk).data.length ≤ (c.requestFor r more).data.length := by
  have direct := Aggregate.length_calldata_le h
  have wrapped : (c.wrapper ++ Deployless.arguments c.code (Aggregate.calldata chunk)).length ≤
      (c.wrapper ++ Deployless.arguments c.code (Aggregate.calldata more)).length := by
    have := Bytes.ceil32_mono direct
    rw [List.length_append, List.length_append, Deployless.length_arguments,
      Deployless.length_arguments]
    omega
  obtain ⟨address, deployless, block⟩ := r
  cases address with
  | none => exact wrapped
  | some address =>
      cases deployless with
      | false => exact direct
      | true => exact wrapped

end Client

end EthBatch
