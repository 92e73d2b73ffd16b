import EthBatch.Proofs.Abi.Standard

/-!
# Values of a type

`Kind.Holds` says which values a standard type has: whole numbers within its bounds, byte strings of
its size, and sequences of values of its items. An address may be written in any of the ways in
which the encoder takes one. All these values have an encoding. Decoding gives them back in
canonical form, and presenting that gives them with their addresses in checksummed form.
-/

namespace EthBatch.Abi.Kind

/-- A value of a type. -/
inductive Holds [Platform] : Kind → Value → Prop where
  | uint {bits : Nat} {n : Int} (low : 0 ≤ n) (high : n < 2 ^ bits) : Holds (.uint bits) (.int n)
  | int {bits : Nat} {n : Int} (low : -2 ^ (bits - 1) ≤ n) (high : n < 2 ^ (bits - 1)) :
      Holds (.int bits) (.int n)
  | bool (b : Bool) : Holds .bool (.bool b)
  | address {v : Value} {a : Address} (denoted : addressBytes? v = some a.bytes)
      (taken : isTaken v = true) : Holds .address v
  | bytesOf (b : Bytes) : Holds (.bytesOf b.length) (.bytes b)
  | bytes (b : Bytes) : Holds .bytes (.bytes b)
  | string (s : String) : Holds .string (.text s)
  | vector {k : Kind} {v : Value} {vs : List Value} (sequence : v.sequence? = some vs)
      (items : ∀ w ∈ vs, Holds k w) : Holds (.vector vs.length k) v
  | array {k : Kind} {v : Value} {vs : List Value} (sequence : v.sequence? = some vs)
      (items : ∀ w ∈ vs, Holds k w) : Holds (.array k) v
  | tuple {ks : List Kind} {v : Value} {vs : List Value} (sequence : v.sequence? = some vs)
      (items : List.Forall₂ Holds ks vs) : Holds (.tuple ks) v

mutual

/-- A value with every address in it, at any depth, as checksummed text. Everything else stays as
it is. An array is a list and a tuple is a tuple, in whichever of the two forms they were given. -/
def checksummed : Kind → Value → Value
  | .address, v =>
    match (addressBytes? v).bind Address.ofBytes? with
    | some a => .text a.text
    | none => v
  | .vector _ k, v =>
    match v.sequence? with
    | some vs => .list (vs.map (checksummed k))
    | none => v
  | .array k, v =>
    match v.sequence? with
    | some vs => .list (vs.map (checksummed k))
    | none => v
  | .tuple ks, v =>
    match v.sequence? with
    | some vs => .tuple (checksummedEach ks vs)
    | none => v
  | _, v => v

def checksummedEach : List Kind → List Value → List Value
  | k :: ks, v :: vs => checksummed k v :: checksummedEach ks vs
  | _, _ => []

end

/-! ## Encodings -/

theorem encodeEach_isOk {f : Value → Except EncodeFault Bytes} {vs : List Value} (k : Kind)
    (h : ∀ w ∈ vs, ∃ b, f w = .ok b) : ∃ ps, encodeEach f k vs = .ok ps := by
  induction vs with
  | nil => exact ⟨[], rfl⟩
  | cons v vs ih =>
      obtain ⟨⟨b, first⟩, rest⟩ := List.forall_mem_cons.mp h
      obtain ⟨ps, others⟩ := ih rest
      exact ⟨_, encodeEach_cons.mpr ⟨b, ps, first, others, rfl⟩⟩

section

variable [Platform]

mutual

/-- Every value of a type has an encoding. -/
theorem Holds.encode_isOk : ∀ {k : Kind} {v : Value}, Holds k v → ∃ b, encode k v = .ok b
  | .uint bits, v, h => by
      cases h with
      | uint low high =>
          refine ⟨_, encodeInt_eq_ok.mpr ⟨_, rfl, low, ?_, rfl⟩⟩
          rw [Nat.pow_eq]
          push_cast
          omega
  | .int bits, v, h => by
      cases h with
      | int low high =>
          refine ⟨_, encodeInt_eq_ok.mpr ⟨_, rfl, ?_, ?_, rfl⟩⟩
          all_goals
            rw [Nat.pow_eq]
            push_cast
            omega
  | .bool, v, h => by
      cases h
      exact ⟨_, rfl⟩
  | .address, v, h => by
      cases h with
      | address denoted taken => exact ⟨_, encode_address.mpr ⟨_, denoted, taken, rfl⟩⟩
  | .fixed _ _ _, v, h => nomatch h
  | .bytesOf n, v, h => by
      cases h with
      | bytesOf b =>
          simp only [encode, Value.bytes?, Nat.lt_irrefl, if_false]
          exact ⟨_, rfl⟩
  | .bytes, v, h => by
      cases h
      exact ⟨_, rfl⟩
  | .string, v, h => by
      cases h
      exact ⟨_, rfl⟩
  | .vector n k, v, h => by
      cases h with
      | vector sequence items =>
          obtain ⟨ps, parts⟩ := encodeEach_isOk k fun w mem => (items w mem).encode_isOk
          exact ⟨_, encode_vector.mpr ⟨_, ps, sequence, rfl, parts, rfl⟩⟩
  | .array k, v, h => by
      cases h with
      | array sequence items =>
          obtain ⟨ps, parts⟩ := encodeEach_isOk k fun w mem => (items w mem).encode_isOk
          exact ⟨_, encode_array.mpr ⟨_, ps, sequence, parts, rfl⟩⟩
  | .tuple ks, v, h => by
      cases h with
      | tuple sequence items =>
          obtain ⟨ps, parts⟩ := encodeFields_isOk items
          exact ⟨_, encode_tuple.mpr ⟨_, ps, sequence, items.length_eq.symm, parts, rfl⟩⟩

theorem encodeFields_isOk : ∀ {ks : List Kind} {vs : List Value}, List.Forall₂ Holds ks vs →
    ∃ ps, encodeFields ks vs = .ok ps
  | [], _, .nil => ⟨[], rfl⟩
  | k :: ks, _, .cons first rest => by
      obtain ⟨b, here⟩ := first.encode_isOk
      obtain ⟨ps, others⟩ := encodeFields_isOk rest
      exact ⟨_, encodeFields_cons.mpr ⟨b, ps, here, others, rfl⟩⟩

end

/-! ## Canonical forms -/

mutual

/-- The canonical form of a value of a type, presented, differs from it in the addresses. -/
theorem Holds.present_canonical : ∀ {k : Kind} {v : Value}, Holds k v →
    present k (canonical k v) = checksummed k v
  | .uint _, v, h | .int _, v, h | .bool, v, h | .string, v, h => by
      cases h
      rfl
  | .fixed _ _ _, v, h => nomatch h
  | .address, v, h => by
      cases h with
      | address denoted _ => simp [canonical, checksummed, denoted, present]
  | .bytesOf n, v, h => by
      cases h with
      | bytesOf b => simp [canonical, checksummed, present, Value.bytes?, Bytes.zeros]
  | .bytes, v, h => by
      cases h
      rfl
  | .vector n k, v, h => by
      cases h with
      | vector sequence items =>
          simp only [canonical, checksummed, present, sequence, Option.getD_some, List.map_map]
          congr 1
          exact List.map_congr_left fun w mem => (items w mem).present_canonical
  | .array k, v, h => by
      cases h with
      | array sequence items =>
          simp only [canonical, checksummed, present, sequence, Option.getD_some, List.map_map]
          congr 1
          exact List.map_congr_left fun w mem => (items w mem).present_canonical
  | .tuple ks, v, h => by
      cases h with
      | tuple sequence items =>
          simp only [canonical, checksummed, present, sequence, Option.getD_some]
          rw [presentEach_canonicals items]

theorem presentEach_canonicals : ∀ {ks : List Kind} {vs : List Value}, List.Forall₂ Holds ks vs →
    presentEach ks (canonicals ks vs) = checksummedEach ks vs
  | [], _, .nil => rfl
  | k :: ks, _, .cons first rest => by
      rw [canonicals, presentEach, checksummedEach, first.present_canonical,
        presentEach_canonicals rest]

end

end

/-! ## Round trip -/

theorem areStandard_iff {ks : List Kind} :
    areStandard ks = true ↔ ∀ k ∈ ks, k.isStandard = true := by
  induction ks with
  | nil => simp [areStandard]
  | cons k ks ih => rw [areStandard, Bool.and_eq_true, ih, List.forall_mem_cons]

section

variable [Platform] {ks : List Kind} {vs : List Value} {data : Bytes}

theorem encodeAll_isOk (values : List.Forall₂ Holds ks vs) : ∃ data, encodeAll ks vs = .ok data :=
  (Holds.tuple rfl values).encode_isOk

/-- Values of standard types come back from their encoding in canonical form. -/
theorem decodeAll_of_holds (standard : areStandard ks = true) (values : List.Forall₂ Holds ks vs)
    (encoded : encodeAll ks vs = .ok data) (fits : data.length < maxSize) :
    decodeAll ks data = .ok (canonicals ks vs) := by
  cases ks with
  | nil => cases values; rfl
  | cons k ks =>
      have regular : (Kind.tuple (k :: ks)).isRegular = true := by
        rw [isRegular, areRegular_of_areStandard _ standard]
        rfl
      have read := decodeAll_encodeAll regular encoded fits []
      rwa [List.append_nil] at read

end

end EthBatch.Abi.Kind
