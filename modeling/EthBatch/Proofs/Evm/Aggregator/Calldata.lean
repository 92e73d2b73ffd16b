import EthBatch.Proofs.Aggregate
import EthBatch.Proofs.Evm.Memory

/-!
# What the aggregator finds in its calldata

The word at `0x04` leads to the array of the calls, whose length is at `0x24`. The words behind
the length lead to the calls, and a call is its target, whether it may fail, and its data.
-/

namespace EthBatch

open Abi

/-- The word of an address. -/
def Address.word (a : Address) : Evm.Word := BitVec.ofNat 256 (Bytes.toNat a.bytes)

theorem Address.account_word (a : Address) : a.word.account = a.word := by
  have small : Bytes.toNat a.bytes < 2 ^ 160 := by
    have bound := Bytes.toNat_lt a.bytes
    rw [a.size] at bound
    exact bound
  apply BitVec.eq_of_toNat_eq
  rw [Evm.Word.account, word, BitVec.toNat_setWidth, BitVec.toNat_setWidth, BitVec.toNat_ofNat]
  omega

/-! ## A call -/

namespace SubCall

open Evm

variable (c : SubCall) (rest : Bytes)

theorem length_body : c.body.length = 0x80 + Bytes.ceil32 c.data.length := by
  simp only [body, Kind.encodeBytes, List.length_append, length_target, Bytes.length_word,
    Bytes.length_padEnd]
  omega

theorem wordAt_target : wordAt (c.body ++ rest) 0 = c.target.word := by
  rw [body, List.append_assoc, wordAt_append_left c.length_target, Bytes.toNat_padStart_zero,
    Address.word]

/-- What stands behind the target. -/
theorem drop_body : (c.body ++ rest).drop 0x20 =
    Bytes.word (if c.allowFailure then 1 else 0) ++ (Bytes.word 0x60 ++
      (Bytes.word c.data.length ++ (c.data ++
        (Bytes.zeros (Bytes.ceil32 c.data.length - c.data.length) ++ rest)))) := by
  simp only [body, Kind.encodeBytes, Bytes.padEnd, List.append_assoc]
  exact List.drop_left' c.length_target

theorem wordAt_allowFailure :
    wordAt (c.body ++ rest) 0x20 = Word.ofBool c.allowFailure := by
  have found := wordAt_drop (c.body ++ rest) 0x20 0
  rw [drop_body, wordAt_word] at found
  rw [← found]
  cases c.allowFailure <;> rfl

theorem wordAt_offset : wordAt (c.body ++ rest) 0x40 = BitVec.ofNat 256 0x60 := by
  have found := wordAt_drop (c.body ++ rest) 0x20 0x20
  rw [drop_body, wordAt_append_right (by simp)] at found
  simpa using found.symm

theorem wordAt_length :
    wordAt (c.body ++ rest) 0x60 = BitVec.ofNat 256 c.data.length := by
  have found := wordAt_drop (c.body ++ rest) 0x20 0x40
  rw [drop_body, wordAt_append_right (by simp), wordAt_append_right (by simp)] at found
  simpa using found.symm

theorem window_data : window (c.body ++ rest) 0x80 c.data.length = c.data := by
  have found := window_drop (c.body ++ rest) 0x20 0x60 c.data.length
  rw [drop_body, window_append_right (by simp), window_append_right (by simp),
    window_append_right (by simp)] at found
  simp only [Bytes.length_word, Nat.reduceSub] at found
  rw [← found, window_append_left]

end SubCall

/-! ## The calls -/

namespace Aggregate

open Evm

variable (calls before after : List SubCall) (c : SubCall)

/-- How far from the length of the array a call begins. -/
def place (calls before : List SubCall) : Nat :=
  0x20 + 0x20 * calls.length + (before.map SubCall.body).flatten.length

theorem calldata_eq : calldata calls = selector ++ (Bytes.word 0x20 ++ (Bytes.word calls.length ++
    (Layout.heads (0x20 * calls.length) (calls.map SubCall.body) ++
      (calls.map SubCall.body).flatten))) := by
  rw [calldata, Layout.array_eq, List.length_map]

theorem wordAt_array : wordAt (calldata calls) 0x04 = BitVec.ofNat 256 0x20 := by
  rw [calldata_eq, wordAt_append_right (by decide)]
  exact wordAt_word _

theorem wordAt_count : wordAt (calldata calls) 0x24 = BitVec.ofNat 256 calls.length := by
  rw [calldata_eq, wordAt_append_right (by decide), wordAt_append_right (by simp; decide)]
  exact wordAt_word _

theorem drop_calldata : (calldata calls).drop 0x44 =
    Layout.heads (0x20 * calls.length) (calls.map SubCall.body) ++
      (calls.map SubCall.body).flatten := by
  have split : calldata calls = selector ++ Bytes.word 0x20 ++ Bytes.word calls.length ++
      (Layout.heads (0x20 * calls.length) (calls.map SubCall.body) ++
        (calls.map SubCall.body).flatten) := by
    rw [calldata_eq, List.append_assoc, List.append_assoc]
  rw [split]
  exact List.drop_left' (by simp; decide)

theorem map_body_of_split (h : calls = before ++ c :: after) :
    calls.map SubCall.body = before.map SubCall.body ++ c.body :: after.map SubCall.body := by
  rw [h, List.map_append, List.map_cons]

/-- The word of a call leads to the call. -/
theorem wordAt_place (h : calls = before ++ c :: after) :
    BitVec.ofNat 256 0x20 + wordAt (calldata calls) (0x44 + 0x20 * before.length) =
      BitVec.ofNat 256 (place calls before) := by
  have size : (Layout.heads (0x20 * calls.length) (before.map SubCall.body)).length =
      0x20 * before.length := by
    rw [Layout.length_heads, List.length_map]
  rw [← wordAt_drop, drop_calldata, map_body_of_split calls before after c h,
    Layout.heads_append, Layout.heads_cons, List.append_assoc, List.append_assoc,
    wordAt_append_right (Nat.le_of_eq size), size, Nat.sub_self, wordAt_word,
    ← BitVec.ofNat_add, place, Nat.add_assoc]

/-- The call stands where its word leads. -/
theorem drop_place (h : calls = before ++ c :: after) :
    (calldata calls).drop (0x24 + place calls before) =
      c.body ++ (after.map SubCall.body).flatten := by
  have flat : (calls.map SubCall.body).flatten =
      (before.map SubCall.body).flatten ++ (c.body ++ (after.map SubCall.body).flatten) := by
    rw [map_body_of_split calls before after c h, List.flatten_append, List.flatten_cons]
  have here : 0x24 + place calls before = 0x44 +
      (Layout.heads (0x20 * calls.length) (calls.map SubCall.body) ++
        (before.map SubCall.body).flatten).length := by
    rw [List.length_append, Layout.length_heads, List.length_map, place]
    omega
  rw [here, ← List.drop_drop, drop_calldata, flat, ← List.append_assoc, List.drop_left]

/-- What the machine finds where the word of a call leads. -/
theorem wordAt_call (h : calls = before ++ c :: after) (k : Nat) :
    wordAt (calldata calls) (0x24 + place calls before + k) =
      wordAt (c.body ++ (after.map SubCall.body).flatten) k := by
  rw [← wordAt_drop, drop_place calls before after c h]

theorem window_call (h : calls = before ++ c :: after) :
    window (calldata calls) (0x24 + place calls before + 0x80) c.data.length = c.data := by
  rw [← window_drop, drop_place calls before after c h, SubCall.window_data]

/-- A call ends before the calldata do. -/
theorem place_le (h : calls = before ++ c :: after) :
    0x24 + place calls before + 0x80 + c.data.length ≤ (calldata calls).length := by
  have length := congrArg List.length (drop_place calls before after c h)
  have pad := Bytes.le_ceil32 c.data.length
  rw [List.length_drop, List.length_append, SubCall.length_body] at length
  omega

end Aggregate

end EthBatch
