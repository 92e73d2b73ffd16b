import EthBatch.Call
import EthBatch.Proofs.Abi.Values

/-!
# Output of a function

A function whose interface describes outputs of standard types gives them back from their encoding,
with all addresses in checksummed form and all arrays as lists: a single output as the bare value,
whatever it is, and several outputs or none as a tuple.
-/

namespace EthBatch

open Abi

namespace Call

/-- Does the interface describe outputs of the given types? Without outputs there is no need to say
anything. -/
inductive HasOutputs (function : Abi.Entry) : List Kind → Prop where
  | unstated (absent : Fields.get? function "outputs" = none) : HasOutputs function []
  | described {v : Value} {items : List Value} {ks : List Kind}
      (stated : Fields.get? function "outputs" = some v) (listed : v.sequence? = some items)
      (described : List.Forall₂ Schema.Describes items (ks.map Kind.tree)) :
      HasOutputs function ks

variable {function : Abi.Entry} {ks : List Kind} {vs : List Value} {data : Bytes}

/-- The names of the output types are those of the described types. -/
theorem HasOutputs.outputTypes (h : HasOutputs function ks) :
    outputTypes function = .ok (ks.map fun k => Schema.textOf k.tree) := by
  cases h with
  | unstated absent => rw [Call.outputTypes, absent]; rfl
  | @described v items _ stated listed described =>
      have walked : v.items? = some items := by
        cases v with
        | list | tuple => exact listed
        | _ => cases listed
      rw [Call.outputTypes, stated, Schema.listedTexts, walked]
      dsimp only
      rw [Schema.typeTexts_of_describes _ described, List.map_map]
      rfl

/-- Output that decodes gives the bare value of a single output, and otherwise a tuple. -/
theorem HasOutputs.decodeOutput (h : HasOutputs function ks) (standard : Kind.areStandard ks = true)
    (decoded : Kind.decodeAll ks data = .ok vs) :
    decodeOutput function data = .ok (.ok (bare (Kind.presentEach ks vs))) := by
  rw [Call.decodeOutput, h.outputTypes, Except.ok_bind, Kind.ofTexts_textOf standard]
  dsimp only
  rw [decoded]

/-- The values of described outputs come back from their encoding with checksummed addresses, arrays
as lists and tuples as tuples: a single output as it is, several or none as a tuple. No byte string
is `maxSize` long. -/
theorem decodes_encoded_outputs [Platform] (outputs : HasOutputs function ks)
    (standard : ∀ k ∈ ks, k.isStandard = true) (values : List.Forall₂ Kind.Holds ks vs) :
    ∃ data, Kind.encodeAll ks vs = .ok data ∧ (data.length < maxSize →
      (∀ k v, ks = [k] → vs = [v] →
        decodeOutput function data = .ok (.ok (k.checksummed v))) ∧
      (ks.length ≠ 1 →
        decodeOutput function data = .ok (.ok (.tuple (Kind.checksummedEach ks vs))))) := by
  obtain ⟨data, encoded⟩ := Kind.encodeAll_isOk values
  have standard := Kind.areStandard_iff.mpr standard
  refine ⟨data, encoded, fun fits => ?_⟩
  have decoded := outputs.decodeOutput standard
    (Kind.decodeAll_of_holds standard values encoded fits)
  rw [decoded, Kind.presentEach_canonicals values]
  refine ⟨?_, fun several => ?_⟩
  · rintro k v rfl rfl
    rfl
  · have length := values.length_eq
    match ks, vs, several, length with
    | [], [], _, _ => rfl
    | k :: l :: ks, v :: w :: vs, _, _ => rfl

/-- A function with one output, which is a list of pairs. -/
def ownersFunction : Abi.Entry :=
  [("name", .text "owners"), ("outputs", .list [.record [("name", .text ""),
    ("type", .text "tuple[]"), ("components", .list [
      .record [("name", .text "owner"), ("type", .text "address")],
      .record [("name", .text "marks"), ("type", .text "bytes2[2]")]])]])]

/-- The type of the output. -/
def ownersKind : Kind := .array (.tuple [.address, .vector 2 (.bytesOf 2)])

/-- A list of one pair with an address in the given spelling. -/
def ownersOf (address : String) : Value :=
  .list [.tuple [.text address, .list [.bytes [1, 2], .bytes [3, 4]]]]

/-- An address whose text has capital letters. -/
def owner : Address :=
  ⟨[0x52, 0x90, 0x84, 0x00, 0x09, 0x85, 0x27, 0x88, 0x6e, 0x0f, 0x70, 0x30, 0x06, 0x98, 0x57, 0xd2,
    0xe4, 0x16, 0x9e, 0xe7], rfl⟩

open scoped Platform.Lenient

theorem decodes_encoded_outputs_owners : ∃ data,
    Kind.encodeAll [ownersKind] [ownersOf "52908400098527886e0f7030069857d2e4169ee7"] = .ok data ∧
      decodeOutput ownersFunction data = .ok (.ok (ownersOf owner.text)) := by
  have denoted : Kind.addressBytes? (.text "52908400098527886e0f7030069857d2e4169ee7") =
      some owner.bytes := by
    decide +kernel
  have each : ∀ w ∈ [Value.bytes [1, 2], .bytes [3, 4]], Kind.Holds (.bytesOf 2) w :=
    List.forall_mem_cons.mpr ⟨.bytesOf [1, 2], List.forall_mem_singleton.mpr (.bytesOf [3, 4])⟩
  have marks : Kind.Holds (.vector 2 (.bytesOf 2)) (.list [.bytes [1, 2], .bytes [3, 4]]) :=
    .vector rfl each
  have owners : Kind.Holds ownersKind (ownersOf "52908400098527886e0f7030069857d2e4169ee7") := by
    refine .array rfl fun w mem => ?_
    obtain rfl := List.mem_singleton.mp mem
    exact .tuple rfl (.cons (.address denoted rfl) (.cons marks .nil))
  have outputs : HasOutputs ownersFunction [ownersKind] :=
    .described rfl rfl (.cons (.tuple rfl rfl rfl
      (.cons (.word rfl (by decide)) (.cons (.word rfl (by decide)) .nil))) .nil)
  have standard : ∀ k ∈ [ownersKind], k.isStandard = true := by
    intro k mem
    obtain rfl := List.mem_singleton.mp mem
    rfl
  have size : (Kind.encodeAll [ownersKind]
      [ownersOf "52908400098527886e0f7030069857d2e4169ee7"]).map List.length = .ok 160 := by rfl
  obtain ⟨data, encoded, back⟩ := decodes_encoded_outputs outputs standard (.cons owners .nil)
  have length : data.length = 160 := by
    rw [encoded] at size
    exact Except.ok.inj size
  refine ⟨data, encoded, ((back (by rw [length]; decide)).1 _ _ rfl rfl).trans ?_⟩
  simp [ownersKind, ownersOf, Kind.checksummed, Kind.checksummedEach, Value.sequence?, denoted]

end Call

end EthBatch
