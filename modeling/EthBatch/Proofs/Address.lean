import EthBatch.Platform
import EthBatch.Proofs.Bytes

/-!
# Addresses as text

The checksum of an address changes the letter case of its digits only, and reading ignores the
letter case, so the text of an address denotes that address, and so does its text in lower case.
Every encoder takes a text with its checksum.
-/

namespace EthBatch

namespace Hex

@[simp] theorem value?_digit {n : Nat} (h : n < 16) : value? (digit n) = some n := by
  have table : ∀ n : Fin 16, value? (digit n) = some n.val := by decide
  exact table ⟨n, h⟩

theorem value?_toUpper_digit {n : Nat} (h : n < 16) : value? (digit n).toUpper = some n := by
  have table : ∀ n : Fin 16, value? (digit n).toUpper = some n.val := by decide
  exact table ⟨n, h⟩

@[simp] theorem length_encode (b : Bytes) : (encode b).length = 2 * b.length := by
  induction b with
  | nil => rfl
  | cons x b ih =>
      simp only [encode_cons, List.length_cons, ih]
      omega

/-- All that is written are digits. -/
theorem exists_digit {b : Bytes} {c : Char} (h : c ∈ encode b) : ∃ n < 16, c = digit n := by
  obtain ⟨x, _, hc⟩ := List.mem_flatMap.mp h
  have := x.toNat_lt
  simp only [List.mem_cons, List.not_mem_nil, or_false] at hc
  rcases hc with rfl | rfl
  · exact ⟨_, by omega, rfl⟩
  · exact ⟨_, by omega, rfl⟩

/-- Characters that are digits of the same values denote the same bytes. -/
theorem decode?_congr {cs ds : List Char} (h : cs.map value? = ds.map value?) :
    decode? cs = decode? ds := by
  induction cs using decode?.induct generalizing ds with
  | case1 =>
      have : ds = [] := by simpa using h.symm
      rw [this]
  | case2 c =>
      match ds with
      | [] => simp at h
      | [_] => rfl
      | _ :: _ :: _ => simp at h
  | case3 a b rest ih =>
      match ds with
      | [] => simp at h
      | [_] => simp at h
      | _ :: _ :: _ =>
          simp only [List.map_cons, List.cons.injEq] at h
          simp only [decode?, h.1, h.2.1, ih h.2.2]

/-- Reading what was written gives the bytes back. -/
@[simp] theorem decode?_encode (b : Bytes) : decode? (encode b) = some b := by
  induction b with
  | nil => rfl
  | cons x b ih =>
      have high : x.toNat / 16 < 16 := by
        have := x.toNat_lt
        omega
      have low : x.toNat % 16 < 16 := Nat.mod_lt _ (by decide)
      simp only [encode_cons, decode?, value?_digit high, value?_digit low, ih, Option.bind_eq_bind,
        Option.bind_some, Nat.div_add_mod', UInt8.ofNat_toNat]

end Hex

namespace Address

/-- Every checksummed digit has the value of the plain one. -/
theorem map_value?_checksum {b : Bytes} (h : b.length ≤ 32) :
    (checksum b).map Hex.value? = (Hex.encode b).map Hex.value? := by
  apply List.ext_getElem
  · simp [checksum]
    omega
  · intro i h₁ h₂
    have inside : i < (Hex.encode b).length := by simpa using h₂
    obtain ⟨n, hn, digit⟩ : ∃ n < 16, (Hex.encode b)[i] = Hex.digit n :=
      Hex.exists_digit (List.getElem_mem _)
    simp only [List.getElem_map, checksum, List.getElem_zipWith, digit]
    split
    · rw [Hex.value?_toUpper_digit hn, Hex.value?_digit hn]
    · rfl

/-- The text of an address denotes the address. -/
@[simp] theorem ofText?_text (a : Address) : ofText? a.text = some a := by
  have digits : Hex.decode? (checksum a.bytes) = some a.bytes := by
    rw [Hex.decode?_congr (map_value?_checksum (by rw [a.size]; decide)), Hex.decode?_encode]
  simp [ofText?, text, ofChars?, Hex.dropMark, digits]

@[simp] theorem ofText?_plainText (a : Address) : ofText? a.plainText = some a := by
  simp [ofText?, plainText, Hex.prefixed, Hex.text, ofChars?, Hex.dropMark]

/-- A text with its checksum is well spelled. -/
theorem isWellSpelled_text (a : Address) : isWellSpelled a.text = true := by
  simp [isWellSpelled]

end Address

@[simp] theorem Platform.takes_text [Platform] (a : Address) : takes a.text = true :=
  takes_of_isWellSpelled _ a.isWellSpelled_text

/-- A strict encoder refuses digits whose case is that of no checksum. -/
example : Platform.strict.takes "0x00000000000000000000000000000000000000aB" = false := by
  decide +kernel

end EthBatch
