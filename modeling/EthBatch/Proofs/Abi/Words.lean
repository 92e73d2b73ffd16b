import EthBatch.Proofs.Abi.RoundTrip
import EthBatch.Proofs.Abi.TypeName

/-!
# Encodings are made of words

The encoding of a value fills a whole number of words, provided that no type asks for a byte string
of fixed size that is longer than a word. Types that are read from names never do.
-/

namespace EthBatch.Abi

namespace Layout

/-- Parts that fill whole words make a container that does. -/
theorem dvd_length_join {ps : List Part} (h : ∀ p ∈ ps, 32 ∣ p.body.length) :
    32 ∣ (join ps).length := by
  rw [length_join]
  induction ps with
  | nil => simp
  | cons p ps ih =>
      obtain ⟨first, rest⟩ := List.forall_mem_cons.mp h
      have rest := ih rest
      simp only [headSize_cons, tail_cons, List.length_append]
      cases place : p.inTail <;> simp [Part.headSize, place] <;> omega

end Layout

/-- A fixed-point number is written in one word. -/
theorem length_encodeFixed {isSigned negative : Bool} {bits places c : Nat} {e : Int} {b : Bytes}
    (h : encodeFixed isSigned bits places negative c e = .ok b) : b.length = 32 := by
  have word {n : Nat} (h : Except.ok (Bytes.word n) = (.ok b : Except EncodeFault Bytes)) :
      b.length = 32 := by
    rw [← Except.ok.inj h, Bytes.length_word]
  unfold encodeFixed at h
  split at h
  · exact word h
  · split at h
    · nomatch h
    · generalize units c e places = cut, Nat.pow 2 256 = modulus,
        (if isSigned then Nat.pow 2 (bits - 1) else 0) = low,
        (if isSigned then Nat.pow 2 (bits - 1) - 1 else Nat.pow 2 bits - 1) = high at h
      obtain ⟨whole, exact⟩ := cut
      dsimp only at h
      split at h
      · split at h
        · nomatch h
        · split at h
          · rw [← Except.ok.inj h, Bytes.length_padStart 0xff (by decide)]
          · exact word h
      · split at h
        · nomatch h
        · split at h
          · exact word h
          · nomatch h

namespace Kind

mutual

/-- Do all byte strings of fixed size fit a word? -/
def fitsWords : Kind → Bool
  | .bytesOf n => n ≤ 32
  | .vector _ k => fitsWords k
  | .array k => fitsWords k
  | .tuple ks => allFitWords ks
  | _ => true

def allFitWords : List Kind → Bool
  | [] => true
  | k :: ks => fitsWords k && allFitWords ks

end

/-! ## Types that are read from names -/

section

variable {k : Kind} {ks : List Kind} {w : Word}

theorem fitsWords_of_kind (h : w.kind = .ok k) : k.fitsWords = true := by
  unfold Word.kind at h
  repeat' split at h
  all_goals
    cases h
    try rfl
  simpa [fitsWords]

theorem fitsWords_withSuffixes (h : k.fitsWords = true) (ss : List Suffix) :
    (k.withSuffixes ss).fitsWords = true := by
  unfold withSuffixes
  induction ss generalizing k with
  | nil => exact h
  | cons s ss ih =>
      cases s with
      | unsized => exact ih (by simpa [fitsWords] using h)
      | sized n => exact ih (by simpa [fitsWords] using h)

mutual

theorem fitsWords_of_tree : ∀ (t : TypeText) {k : Kind}, ofTree t = .ok k → k.fitsWords = true
  | .word name ss, k, h => by
      rw [ofTree] at h
      split at h
      · obtain ⟨inner, named, rfl⟩ := Except.map_eq_ok.mp h
        exact fitsWords_withSuffixes (fitsWords_of_kind named) ss
      · cases h
  | .tuple items ss, k, h => by
      rw [ofTree] at h
      obtain ⟨ks, read, rfl⟩ := Except.map_eq_ok.mp h
      exact fitsWords_withSuffixes (by simpa [fitsWords] using allFitWords_of_trees items read) ss

theorem allFitWords_of_trees : ∀ (ts : List TypeText) {ks : List Kind},
    ofTrees ts = .ok ks → allFitWords ks = true
  | [], ks, h => by
      cases h
      rfl
  | t :: ts, ks, h => by
      rw [ofTrees] at h
      obtain ⟨k, first, h⟩ := Except.bind_eq_ok.mp h
      obtain ⟨rest, others, h⟩ := Except.bind_eq_ok.mp h
      obtain rfl := Except.ok.inj h
      simp [allFitWords, fitsWords_of_tree t first, allFitWords_of_trees ts others]

end

theorem fitsWords_of_text {s : String} (h : ofText s = .ok k) : k.fitsWords = true := by
  unfold ofText ofChars at h
  split at h
  · cases h
  split at h
  · cases h
  split at h
  · split at h
    · unfold ofBareWord at h
      split at h
      · cases h
      · exact fitsWords_of_kind h
    · cases h
  · split at h
    · exact fitsWords_of_tree _ h
    · cases h

theorem allFitWords_of_texts {names : List String} (h : ofTexts names = .ok ks) :
    allFitWords ks = true := by
  induction names generalizing ks with
  | nil =>
      cases h
      rfl
  | cons name names ih =>
      rw [ofTexts] at h
      obtain ⟨k, first, h⟩ := Except.bind_eq_ok.mp h
      obtain ⟨rest, others, h⟩ := Except.bind_eq_ok.mp h
      obtain rfl := Except.ok.inj h
      simp [allFitWords, fitsWords_of_text first, ih others]

end

/-! ## Encodings -/

theorem dvd_length_encodeBytes (b : Bytes) : 32 ∣ (encodeBytes b).length := by
  have := Bytes.ceil32_mod b.length
  rw [encodeBytes, List.length_append, Bytes.length_word, Bytes.length_padEnd]
  omega

/-- Items that fill whole words are parts that do. -/
theorem dvd_of_encodeEach {f : Value → Except EncodeFault Bytes} {k : Kind} {vs : List Value}
    {ps : List Layout.Part} (each : ∀ {v b}, f v = .ok b → 32 ∣ b.length)
    (h : encodeEach f k vs = .ok ps) : ∀ p ∈ ps, 32 ∣ p.body.length := by
  induction vs generalizing ps with
  | nil =>
      cases h
      simp
  | cons v vs ih =>
      obtain ⟨body, qs, first, others, rfl⟩ := encodeEach_cons.mp h
      exact List.forall_mem_cons.mpr ⟨each first, ih others⟩

section

variable [Platform]

mutual

/-- An encoding fills a whole number of words. -/
theorem dvd_length_encode : ∀ (k : Kind) {v : Value} {b : Bytes}, k.fitsWords = true →
    encode k v = .ok b → 32 ∣ b.length
  | .uint _, _, _, _, h => by rw [length_encodeInt h]
  | .int _, _, _, _, h => by rw [length_encodeInt h]
  | .bool, v, b, _, h => by
      cases v with
      | bool c =>
          obtain rfl := Except.ok.inj h
          rw [Bytes.length_word]
      | _ => cases h
  | .address, v, b, _, h => by
      obtain ⟨a, ha, -, rfl⟩ := encode_address.mp h
      rw [Bytes.length_padStart 0 (by rw [length_addressBytes ha]; decide)]
  | .fixed _ _ _, v, b, _, h => by
      simp only [encode] at h
      split at h
      · rw [length_encodeFixed h]
      · rw [length_encodeFixed h]
      · cases h
      · cases h
  | .bytesOf n, v, b, fits, h => by
      simp only [fitsWords, decide_eq_true_eq] at fits
      simp only [encode] at h
      split at h
      · split at h
        · cases h
        · obtain rfl := Except.ok.inj h
          rw [List.length_append, Bytes.length_zeros]
          omega
      · cases h
  | .bytes, v, b, _, h => by
      simp only [encode] at h
      split at h
      · obtain rfl := Except.ok.inj h
        exact dvd_length_encodeBytes _
      · cases h
  | .string, v, b, _, h => by
      simp only [encode] at h
      split at h
      · obtain rfl := Except.ok.inj h
        exact dvd_length_encodeBytes _
      · cases h
  | .vector n k, v, b, fits, h => by
      rw [fitsWords] at fits
      obtain ⟨vs, ps, _, _, items, rfl⟩ := encode_vector.mp h
      exact Layout.dvd_length_join (dvd_of_encodeEach (dvd_length_encode k fits) items)
  | .array k, v, b, fits, h => by
      rw [fitsWords] at fits
      obtain ⟨vs, ps, _, items, rfl⟩ := encode_array.mp h
      rw [List.length_append, Bytes.length_word]
      exact Nat.dvd_add (Nat.dvd_refl 32)
        (Layout.dvd_length_join (dvd_of_encodeEach (dvd_length_encode k fits) items))
  | .tuple ks, v, b, fits, h => by
      rw [fitsWords] at fits
      obtain ⟨vs, ps, _, _, fields, rfl⟩ := encode_tuple.mp h
      exact Layout.dvd_length_join (dvd_of_encodeFields ks fits fields)

theorem dvd_of_encodeFields : ∀ (ks : List Kind) {vs : List Value} {ps : List Layout.Part},
    allFitWords ks = true → encodeFields ks vs = .ok ps → ∀ p ∈ ps, 32 ∣ p.body.length
  | [], vs, ps, _, h => by
      cases h
      simp
  | k :: ks, [], ps, _, h => by
      cases h
      simp
  | k :: ks, v :: vs, ps, fits, h => by
      simp only [allFitWords, Bool.and_eq_true] at fits
      obtain ⟨body, qs, first, others, rfl⟩ := encodeFields_cons.mp h
      exact List.forall_mem_cons.mpr
        ⟨dvd_length_encode k fits.1 first, dvd_of_encodeFields ks fits.2 others⟩

end

/-- Values of types that are read from names are encoded in whole words. -/
theorem dvd_length_encodeAll {names : List String} {ks : List Kind} {vs : List Value} {b : Bytes}
    (read : ofTexts names = .ok ks) (h : encodeAll ks vs = .ok b) : 32 ∣ b.length :=
  dvd_length_encode (.tuple ks) (by simpa [fitsWords] using allFitWords_of_texts read) h

end

end Kind

end EthBatch.Abi
