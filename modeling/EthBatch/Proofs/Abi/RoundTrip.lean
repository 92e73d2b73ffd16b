import EthBatch.Abi.Decode
import EthBatch.Proofs.Abi.Layout
import EthBatch.Proofs.Address
import EthBatch.Proofs.Except

/-!
# Decoding what was encoded

Strict decoding gives back every value that the encoder accepts, in its canonical form: an
address as lower-case text, a sequence as a tuple, a byte string as bytes. What stands behind
an encoding does not matter. The types are those whose values take up room: tuples are not
empty, and fixed arrays have a length. An encoding of `2 ^ 63` bytes or more does not decode, for
no reader takes in a byte string of that size.
-/

namespace EthBatch.Abi

/-! ## Words, byte strings and offsets -/

/-- The bytes of an encoding that a reader can take in. -/
def maxSize : Nat := 2 ^ 63

theorem readWord_append {w : Bytes} (h : w.length = 32) (rest : Bytes) :
    readWord (w ++ rest) = .ok (Bytes.toNat w) := by
  rw [readWord, List.take_left' h, if_pos h]

theorem readWord_word {n : Nat} (h : n < 2 ^ 256) (rest : Bytes) :
    readWord (Bytes.word n ++ rest) = .ok n := by
  rw [readWord_append (Bytes.length_word n), Bytes.toNat_word h]

theorem readUint_word {bits n : Nat} (h : n < 2 ^ bits) (le : bits ≤ 256) (rest : Bytes) :
    readUint bits (Bytes.word n ++ rest) = .ok n := by
  have small : n < 2 ^ 256 := Nat.lt_of_lt_of_le h (Nat.pow_le_pow_right (by decide) le)
  simp only [readUint, readWord_word small, Except.ok_bind]
  exact if_pos h

/-- A signed number reads back from its two's complement. -/
theorem readInt_word {bits : Nat} {n : Int} (low : -((2 ^ (bits - 1) : Nat) : Int) ≤ n)
    (high : n < ((2 ^ (bits - 1) : Nat) : Int)) (le : bits ≤ 256) (rest : Bytes) :
    readInt bits (Bytes.word (n % 2 ^ 256).toNat ++ rest) = .ok n := by
  have half : 2 ^ (bits - 1) ≤ 2 ^ 255 := Nat.pow_le_pow_right (by decide) (by omega)
  have small : (n % 2 ^ 256).toNat < 2 ^ 256 := by omega
  simp only [readInt, readWord_word small, Except.ok_bind, Nat.pow_eq]
  by_cases sign : 0 ≤ n
  · have same : (n % 2 ^ 256).toNat = n.toNat := by omega
    rw [if_pos (by omega), same, Int.toNat_of_nonneg sign]
  · have shifted : ((n % 2 ^ 256).toNat : Int) = n + 2 ^ 256 := by omega
    rw [if_neg (by omega), if_pos (by omega), shifted]
    congr 1
    omega

theorem ceil32_lt_of_encodeBytes {b : Bytes} (h : (Kind.encodeBytes b).length < maxSize) :
    Bytes.ceil32 b.length < maxSize := by
  simp only [Kind.encodeBytes, List.length_append, Bytes.length_word, Bytes.length_padEnd] at h
  omega

/-- Only the padded byte string counts for the size, not the word of its length. -/
theorem readBytes_encodeBytes {b : Bytes} (h : Bytes.ceil32 b.length < maxSize)
    (rest : Bytes) : readBytes (Kind.encodeBytes b ++ rest) = .ok b := by
  have le := Bytes.le_ceil32 b.length
  have size : Bytes.ceil32 b.length < 2 ^ 63 := h
  have short : ¬ Nat.pow 2 63 ≤ Bytes.ceil32 b.length := Nat.not_le.mpr size
  have word : readWord (Bytes.word b.length ++ (Bytes.padEnd b ++ rest)) = .ok b.length :=
    readWord_word (by omega) _
  have body : ((Bytes.word b.length ++ (Bytes.padEnd b ++ rest)).drop 32).take
      (Bytes.ceil32 b.length) = Bytes.padEnd b := by
    rw [List.drop_left' (Bytes.length_word _), List.take_left' (Bytes.length_padEnd b)]
  simp only [readBytes, Kind.encodeBytes, List.append_assoc, word, Except.ok_bind, body,
    Bytes.length_padEnd, Bytes.take_length_padEnd, Bytes.drop_length_padEnd,
    Bytes.any_ne_zero_zeros]
  rw [if_neg short, if_neg (Nat.lt_irrefl _)]
  rfl

theorem readOffset_word {head p : Nat} {frame : Bytes} (low : head ≤ p) (high : p < frame.length)
    (small : p < 2 ^ 256) (rest : Bytes) :
    readOffset head frame (Bytes.word p ++ rest) = .ok p := by
  have inside : ¬ (p < head ∨ frame.length ≤ p) := by omega
  simp [readOffset, readWord_word small, inside]

/-! ## Canonical values -/

namespace Kind

mutual

/-- Types whose values all take up room, and whose decoding gives them back. -/
def isRegular : Kind → Bool
  | .uint bits => bits ≤ 256
  | .int bits => bits ≤ 256
  | .fixed _ _ _ => false
  | .bytesOf n => n ≤ 32
  | .vector n k => 0 < n && isRegular k
  | .array k => isRegular k
  | .tuple ks => !ks.isEmpty && areRegular ks
  | _ => true

def areRegular : List Kind → Bool
  | [] => true
  | k :: ks => isRegular k && areRegular ks

end

mutual

/-- The form in which an accepted value comes back. -/
def canonical : Kind → Value → Value
  | .address, v => match (addressBytes? v).bind Address.ofBytes? with
    | some a => .text a.plainText
    | none => v
  | .bytesOf n, v => match v.bytes? with
    | some b => .bytes (b ++ Bytes.zeros (n - b.length))
    | none => v
  | .bytes, v => match v.bytes? with
    | some b => .bytes b
    | none => v
  | .vector _ k, v => .tuple (((v.sequence?).getD []).map (canonical k))
  | .array k, v => .tuple (((v.sequence?).getD []).map (canonical k))
  | .tuple ks, v => .tuple (canonicals ks ((v.sequence?).getD []))
  | _, v => v

def canonicals : List Kind → List Value → List Value
  | k :: ks, v :: vs => canonical k v :: canonicals ks vs
  | _, _ => []

end

/-! ## Sizes -/

theorem staticSize_pos : ∀ k : Kind, k.isRegular = true → 32 ≤ k.staticSize
  | .vector n k, h => by
      simp only [isRegular, Bool.and_eq_true, decide_eq_true_eq] at h
      have := staticSize_pos k h.2
      have : 1 * 32 ≤ n * k.staticSize := Nat.mul_le_mul h.1 this
      simpa [staticSize] using this
  | .tuple (k :: ks), h => by
      simp only [isRegular, areRegular, Bool.and_eq_true] at h
      have := staticSize_pos k h.2.1
      simp only [staticSize, staticSizes]
      omega
  | .uint _, _ => by simp [staticSize]
  | .int _, _ => by simp [staticSize]
  | .bool, _ => by simp [staticSize]
  | .address, _ => by simp [staticSize]
  | .fixed _ _ _, _ => by simp [staticSize]
  | .bytesOf _, _ => by simp [staticSize]
  | .bytes, _ => by simp [staticSize]
  | .string, _ => by simp [staticSize]
  | .array _, _ => by simp [staticSize]

theorem headSize_pos {k : Kind} (h : k.isRegular = true) : 32 ≤ k.headSize := by
  have := staticSize_pos k h
  unfold headSize
  split <;> omega

/-- The words that a component counts for all stand in the head. -/
theorem headCount_le {k : Kind} (h : k.isRegular = true) : 32 * k.headCount ≤ k.headSize := by
  have := headSize_pos h
  cases k with
  | vector n item =>
      simp only [isRegular, Bool.and_eq_true, decide_eq_true_eq] at h
      have := staticSize_pos item h.2
      have : n * 32 ≤ n * item.staticSize := Nat.mul_le_mul (Nat.le_refl n) this
      cases dynamic : item.isDynamic <;>
        simp only [headCount, headSize, isDynamic, staticSize, dynamic, if_true, if_false,
          Bool.false_eq_true] <;> omega
  | _ => simpa [headCount] using this

theorem headCounts_le {ks : List Kind} (h : areRegular ks = true) :
    32 * headCounts ks ≤ (ks.map headSize).foldr (· + ·) 0 := by
  induction ks with
  | nil => simp [headCounts]
  | cons k ks ih =>
      simp only [areRegular, Bool.and_eq_true] at h
      have := headCount_le h.1
      have := ih h.2
      simp only [headCounts, List.map_cons, List.foldr_cons] at *
      omega

/-! ## Parts -/

theorem encodeEach_cons {f : Value → Except EncodeFault Bytes} {k : Kind} {v : Value}
    {vs : List Value} {ps : List Layout.Part} :
    encodeEach f k (v :: vs) = .ok ps ↔ ∃ body qs, f v = .ok body ∧
      encodeEach f k vs = .ok qs ∧ ps = k.part body :: qs := by
  simp only [encodeEach, Except.bind_eq_ok, Except.ok.injEq]
  grind

theorem encodeFields_cons [Platform] {k : Kind} {ks : List Kind} {v : Value} {vs : List Value}
    {ps : List Layout.Part} :
    encodeFields (k :: ks) (v :: vs) = .ok ps ↔ ∃ body qs, encode k v = .ok body ∧
      encodeFields ks vs = .ok qs ∧ ps = k.part body :: qs := by
  simp only [encodeFields, Except.bind_eq_ok, Except.ok.injEq]
  grind

/-- A fixed array of the right length. -/
theorem encode_vector [Platform] {n : Nat} {k : Kind} {v : Value} {b : Bytes} :
    encode (.vector n k) v = .ok b ↔ ∃ vs ps, v.sequence? = some vs ∧ vs.length = n ∧
      encodeEach (encode k) k vs = .ok ps ∧ Layout.join ps = b := by
  cases hv : v.sequence? with
  | none => simp [encode, hv]
  | some vs =>
      by_cases hn : vs.length = n
      · simp [encode, hv, hn, Except.map_eq_ok]
      · simp [encode, hv, hn]

theorem encode_array [Platform] {k : Kind} {v : Value} {b : Bytes} :
    encode (.array k) v = .ok b ↔ ∃ vs ps, v.sequence? = some vs ∧
      encodeEach (encode k) k vs = .ok ps ∧ Bytes.word vs.length ++ Layout.join ps = b := by
  cases hv : v.sequence? with
  | none => simp [encode, hv]
  | some vs => simp [encode, hv, Except.map_eq_ok]

/-- A tuple with as many components as its type. -/
theorem encode_tuple [Platform] {ks : List Kind} {v : Value} {b : Bytes} :
    encode (.tuple ks) v = .ok b ↔ ∃ vs ps, v.sequence? = some vs ∧ vs.length = ks.length ∧
      encodeFields ks vs = .ok ps ∧ Layout.join ps = b := by
  cases hv : v.sequence? with
  | none => simp [encode, hv]
  | some vs =>
      by_cases hn : vs.length = ks.length
      · simp [encode, hv, hn, Except.map_eq_ok]
      · simp [encode, hv, hn]

theorem encode_address [Platform] {v : Value} {b : Bytes} :
    encode .address v = .ok b ↔ ∃ a, addressBytes? v = some a ∧ isTaken v = true ∧
      Bytes.padStart 0 a = b := by
  cases hv : addressBytes? v with
  | none => simp [encode, hv]
  | some a => cases taken : isTaken v <;> simp [encode, hv, taken]

theorem encodeInt_eq_ok {low high : Int} {v : Value} {b : Bytes} :
    encodeInt low high v = .ok b ↔ ∃ n, v = .int n ∧ low ≤ n ∧ n ≤ high ∧
      Bytes.word (n % Nat.pow 2 256).toNat = b := by
  cases v with
  | int n =>
      by_cases outside : n < low ∨ high < n
      · simp only [encodeInt, Bool.or_eq_true, decide_eq_true_eq, outside, if_true]
        grind
      · simp only [encodeInt, Bool.or_eq_true, decide_eq_true_eq, outside, if_false]
        grind
  | _ => simp [encodeInt]

theorem length_encodeInt {low high : Int} {v : Value} {b : Bytes}
    (h : encodeInt low high v = .ok b) : b.length = 32 := by
  obtain ⟨n, _, _, _, rfl⟩ := encodeInt_eq_ok.mp h
  exact Bytes.length_word _

theorem length_addressBytes {v : Value} {b : Bytes} (h : addressBytes? v = some b) :
    b.length = 20 := by
  unfold addressBytes? at h
  split at h
  · obtain ⟨a, _, rfl⟩ := Option.map_eq_some_iff.mp h
    exact a.size
  · split at h <;> simp_all
  · split at h <;> simp_all
  · cases h

theorem headSize_part_of_static {k : Kind} {body : Bytes} (static : k.isDynamic = false)
    (h : body.length = k.staticSize) : (k.part body).headSize = k.headSize := by
  simp [part, Layout.Part.headSize, headSize, static, h]

theorem headSize_encodeEach {f : Value → Except EncodeFault Bytes} {k : Kind} {vs : List Value}
    {ps : List Layout.Part} (size : ∀ {v b}, f v = .ok b → (k.part b).headSize = k.headSize)
    (h : encodeEach f k vs = .ok ps) : Layout.headSize ps = vs.length * k.headSize := by
  induction vs generalizing ps with
  | nil =>
      cases h
      simp
  | cons v vs ih =>
      obtain ⟨body, qs, hbody, hqs, rfl⟩ := encodeEach_cons.mp h
      rw [Layout.headSize_cons, size hbody, ih hqs, List.length_cons, Nat.succ_mul, Nat.add_comm]

/-- Items of a static type have no tail. -/
theorem tail_encodeEach_of_static {f : Value → Except EncodeFault Bytes} {k : Kind}
    {vs : List Value} {ps : List Layout.Part} (static : k.isDynamic = false)
    (h : encodeEach f k vs = .ok ps) : Layout.tail ps = [] := by
  induction vs generalizing ps with
  | nil =>
      cases h
      rfl
  | cons v vs ih =>
      obtain ⟨body, qs, hbody, hqs, rfl⟩ := encodeEach_cons.mp h
      simp [part, static, ih hqs]

variable [Platform]

mutual

/-- An encoding of a static type has the size of the type. -/
theorem length_encode_of_static : ∀ (k : Kind) {v : Value} {b : Bytes}, k.isRegular = true →
    k.isDynamic = false → encode k v = .ok b → b.length = k.staticSize
  | .uint _, _, _, _, _, h => length_encodeInt h
  | .int _, _, _, _, _, h => length_encodeInt h
  | .bool, v, b, _, _, h => by
      cases v with
      | bool c =>
          obtain rfl := Except.ok.inj h
          exact Bytes.length_word _
      | _ => cases h
  | .address, v, b, _, _, h => by
      obtain ⟨a, denoted, _, rfl⟩ := encode_address.mp h
      exact Bytes.length_padStart 0 (by rw [length_addressBytes denoted]; decide)
  | .bytesOf n, v, b, regular, _, h => by
      simp only [isRegular, decide_eq_true_eq] at regular
      simp only [encode] at h
      split at h
      · split at h
        · cases h
        · obtain rfl := Except.ok.inj h
          simp only [List.length_append, Bytes.length_zeros, staticSize]
          omega
      · cases h
  | .vector n k, v, b, regular, static, h => by
      simp only [isRegular, Bool.and_eq_true, decide_eq_true_eq] at regular
      obtain ⟨vs, ps, _, rfl, hps, rfl⟩ := encode_vector.mp h
      have static : k.isDynamic = false := by simpa [isDynamic] using static
      have head := headSize_encodeEach
        (fun hb => headSize_part_of_static static
          (length_encode_of_static k regular.2 static hb)) hps
      simp [Layout.length_join, head, tail_encodeEach_of_static static hps, staticSize, headSize,
        static]
  | .tuple ks, v, b, regular, static, h => by
      simp only [isRegular, Bool.and_eq_true] at regular
      obtain ⟨vs, ps, _, hn, hps, rfl⟩ := encode_tuple.mp h
      have static : anyDynamic ks = false := by simpa [isDynamic] using static
      obtain ⟨head, tail⟩ := sizes_encodeFields_of_static ks regular.2 static hn hps
      simp [Layout.length_join, head, tail, staticSize]

theorem sizes_encodeFields_of_static : ∀ (ks : List Kind) {vs : List Value}
    {ps : List Layout.Part}, areRegular ks = true → anyDynamic ks = false →
    vs.length = ks.length → encodeFields ks vs = .ok ps →
    Layout.headSize ps = staticSizes ks ∧ Layout.tail ps = []
  | [], vs, ps, _, _, _, h => by
      cases h
      simp [staticSizes]
  | k :: ks, v :: vs, ps, regular, static, hn, h => by
      simp only [areRegular, Bool.and_eq_true] at regular
      simp only [anyDynamic, Bool.or_eq_false_iff] at static
      obtain ⟨body, qs, hbody, hqs, rfl⟩ := encodeFields_cons.mp h
      have := length_encode_of_static k regular.1 static.1 hbody
      obtain ⟨head, tail⟩ :=
        sizes_encodeFields_of_static ks regular.2 static.2 (by simpa using hn) hqs
      simp [part, Layout.Part.headSize, static.1, head, tail, this, staticSizes]

end

/-- The part of a component takes as much of the head as its type says. -/
theorem headSize_part {k : Kind} {v : Value} {body : Bytes} (regular : k.isRegular = true)
    (h : encode k v = .ok body) : (k.part body).headSize = k.headSize := by
  cases dynamic : k.isDynamic
  · exact headSize_part_of_static dynamic (length_encode_of_static k regular dynamic h)
  · simp [part, Layout.Part.headSize, headSize, dynamic]

theorem headSize_encodeFields {ks : List Kind} {vs : List Value} {ps : List Layout.Part}
    (regular : areRegular ks = true) (hn : vs.length = ks.length)
    (h : encodeFields ks vs = .ok ps) :
    Layout.headSize ps = (ks.map headSize).foldr (· + ·) 0 := by
  induction ks generalizing vs ps with
  | nil =>
      match vs, hn with
      | [], _ =>
          cases h
          rfl
  | cons k ks ih =>
      match vs, hn with
      | v :: vs, hn =>
          simp only [areRegular, Bool.and_eq_true] at regular
          obtain ⟨body, qs, hbody, hqs, rfl⟩ := encodeFields_cons.mp h
          rw [Layout.headSize_cons, headSize_part regular.1 hbody,
            ih regular.2 (by simpa using hn) hqs]
          rfl

/-- Every item of an array takes at least a word of the head. -/
theorem length_le_headSize {k : Kind} {vs : List Value} {ps : List Layout.Part}
    (regular : k.isRegular = true) (h : encodeEach (encode k) k vs = .ok ps) :
    32 * vs.length ≤ Layout.headSize ps := by
  rw [headSize_encodeEach (headSize_part regular) h, Nat.mul_comm]
  exact Nat.mul_le_mul_left _ (headSize_pos regular)

/-- No encoding is shorter than a word. -/
theorem length_encode_pos {k : Kind} {v : Value} {b : Bytes} (regular : k.isRegular = true)
    (h : encode k v = .ok b) : 32 ≤ b.length := by
  cases dynamic : k.isDynamic with
  | false =>
      rw [length_encode_of_static k regular dynamic h]
      exact staticSize_pos k regular
  | true =>
      cases k with
      | vector n k =>
          simp only [isRegular, Bool.and_eq_true, decide_eq_true_eq] at regular
          obtain ⟨vs, ps, _, hn, hps, rfl⟩ := encode_vector.mp h
          match vs, hn with
          | v :: vs, _ =>
              obtain ⟨body, qs, hbody, _, rfl⟩ := encodeEach_cons.mp hps
              have := headSize_part regular.2 hbody
              have := headSize_pos regular.2
              rw [Layout.length_join, Layout.headSize_cons]
              omega
          | [], hn =>
              simp only [List.length_nil] at hn
              omega
      | array k =>
          obtain ⟨vs, ps, _, _, rfl⟩ := encode_array.mp h
          simp
      | tuple ks =>
          simp only [isRegular, Bool.and_eq_true] at regular
          obtain ⟨vs, ps, _, hn, hps, rfl⟩ := encode_tuple.mp h
          match ks, vs, hn with
          | k :: ks, v :: vs, _ =>
              simp only [areRegular, Bool.and_eq_true] at regular
              obtain ⟨body, qs, hbody, _, rfl⟩ := encodeFields_cons.mp hps
              have := headSize_part regular.2.1 hbody
              have := headSize_pos regular.2.1
              rw [Layout.length_join, Layout.headSize_cons]
              omega
          | [], [], _ => simp at regular
      | bytes =>
          simp only [encode] at h
          split at h
          · obtain rfl := Except.ok.inj h
            simp [encodeBytes]
          · cases h
      | string =>
          cases v with
          | text s =>
              obtain rfl := Except.ok.inj h
              simp [encodeBytes]
          | _ => cases h
      | _ => cases dynamic

end Kind

/-! ## Following offsets -/

section Follow

variable {frame body tail after : Bytes} {offset : Nat}

theorem lt_length_of_drop (found : frame.drop offset = body ++ tail ++ after)
    (h : 32 ≤ body.length) : offset < frame.length := by
  have := congrArg List.length found
  simp only [List.length_drop, List.length_append] at this
  omega

theorem drop_next (found : frame.drop offset = body ++ tail ++ after) :
    frame.drop (offset + body.length) = tail ++ after := by
  rw [← List.drop_drop, found, List.append_assoc, List.drop_left]

variable {k : Kind} {f : Value → Except EncodeFault Bytes} {vs : List Value}
variable {ps : List Layout.Part}

/-- The head of an array of dynamic items passes the check of its offsets. -/
theorem checkOffsets_head {head : Nat} (more : Bytes) (dynamic : k.isDynamic = true)
    (long : ∀ {v b}, f v = .ok b → 32 ≤ b.length) (h : Kind.encodeEach f k vs = .ok ps)
    (low : head ≤ offset) (found : frame.drop offset = Layout.tail ps ++ after)
    (small : offset + (Layout.tail ps).length < 2 ^ 256) :
    checkOffsets head frame vs.length (Layout.head ps offset ++ more) = .ok () := by
  induction vs generalizing ps offset with
  | nil => rfl
  | cons v vs ih =>
      obtain ⟨body, qs, hbody, hqs, rfl⟩ := Kind.encodeEach_cons.mp h
      simp only [Layout.tail_cons, Kind.part, dynamic, if_true, List.length_append] at found small
      have inside := lt_length_of_drop found (long hbody)
      simp only [Layout.head, Kind.part, dynamic, if_true, List.append_assoc, List.length_cons,
        checkOffsets, readOffset_word low inside (by omega : offset < 2 ^ 256), Except.ok_bind,
        List.drop_left' (Bytes.length_word offset)]
      exact ih hqs (by omega) (drop_next found) (by omega)

/-- Following the offsets of an array gives its items. -/
theorem followEach_head {item : Bytes → Except DecodeFault Value} {g : Value → Value}
    (more : Bytes) (dynamic : k.isDynamic = true)
    (reads : ∀ {v b}, f v = .ok b → b.length < maxSize → ∀ rest, item (b ++ rest) = .ok (g v))
    (h : Kind.encodeEach f k vs = .ok ps) (fits : ∀ p ∈ ps, p.body.length < maxSize)
    (found : frame.drop offset = Layout.tail ps ++ after)
    (small : offset + (Layout.tail ps).length < 2 ^ 256) :
    followEach item frame vs.length (Layout.head ps offset ++ more) = .ok (vs.map g) := by
  induction vs generalizing ps offset with
  | nil => rfl
  | cons v vs ih =>
      obtain ⟨body, qs, hbody, hqs, rfl⟩ := Kind.encodeEach_cons.mp h
      simp only [Layout.tail_cons, Kind.part, dynamic, if_true, List.length_append] at found small
      have value : item (frame.drop offset) = .ok (g v) := by
        rw [found, List.append_assoc]
        exact reads hbody (fits _ List.mem_cons_self) _
      have rest := ih hqs (fun p hp => fits p (List.mem_cons_of_mem _ hp)) (drop_next found)
        (by omega)
      simp only [Layout.head, Kind.part, dynamic, if_true, List.append_assoc, List.length_cons,
        followEach, readWord_word (by omega : offset < 2 ^ 256), Except.ok_bind, value,
        List.drop_left' (Bytes.length_word offset), rest, List.map_cons]

/-- Items of a static type stand one after the other. -/
theorem readEach_head {item : Bytes → Except DecodeFault Value} {g : Value → Value}
    (more : Bytes) (static : k.isDynamic = false)
    (length : ∀ {v b}, f v = .ok b → b.length = k.staticSize)
    (reads : ∀ {v b}, f v = .ok b → b.length < maxSize → ∀ rest, item (b ++ rest) = .ok (g v))
    (h : Kind.encodeEach f k vs = .ok ps) (fits : ∀ p ∈ ps, p.body.length < maxSize) :
    readEach k.staticSize item vs.length (Layout.head ps offset ++ more) = .ok (vs.map g) := by
  induction vs generalizing ps with
  | nil => rfl
  | cons v vs ih =>
      obtain ⟨body, qs, hbody, hqs, rfl⟩ := Kind.encodeEach_cons.mp h
      have value := reads hbody (fits _ List.mem_cons_self)
      have rest := ih hqs (fun p hp => fits p (List.mem_cons_of_mem _ hp))
      simp only [Layout.head, Kind.part, static, Bool.false_eq_true, if_false, List.append_assoc,
        List.length_cons, readEach, value, Except.ok_bind, List.drop_left' (length hbody), rest,
        List.map_cons]

/-- The items of an array come back, whether they are static or behind offsets. -/
theorem readItems_join [Platform] (rest : Bytes) (regular : k.isRegular = true)
    (reads : ∀ {v b}, k.encode v = .ok b → b.length < maxSize →
      ∀ rest, k.decode (b ++ rest) = .ok (k.canonical v))
    (h : Kind.encodeEach k.encode k vs = .ok ps) (fits : (Layout.join ps).length < maxSize) :
    readItems k k.decode vs.length (Layout.join ps ++ rest) = .ok (vs.map k.canonical) := by
  have bodies : ∀ p ∈ ps, p.body.length < maxSize := fun p hp =>
    Nat.lt_of_le_of_lt (Layout.length_body_le hp) fits
  rw [Layout.length_join] at fits
  cases dynamic : k.isDynamic with
  | false =>
      simp only [readItems, dynamic, Bool.false_eq_true, if_false, Layout.join, List.append_assoc]
      exact readEach_head _ dynamic (Kind.length_encode_of_static k regular dynamic) reads h bodies
  | true =>
      have head := Kind.length_le_headSize regular h
      have found : (Layout.join ps ++ rest).drop (Layout.headSize ps) =
          Layout.tail ps ++ rest := by
        rw [Layout.join, List.append_assoc, List.drop_left' (Layout.length_head _ _)]
      have small : Layout.headSize ps + (Layout.tail ps).length < 2 ^ 256 :=
        Nat.lt_trans fits (by decide)
      have check := checkOffsets_head (Layout.tail ps ++ rest) dynamic
        (Kind.length_encode_pos regular) h head found small
      have items := followEach_head (Layout.tail ps ++ rest) dynamic reads h bodies found small
      rw [← List.append_assoc, ← Layout.join] at check items
      simp only [readItems, dynamic, if_true, check, items, Except.ok_bind]

end Follow

namespace Kind

variable [Platform]

mutual

/-- Decoding the encoding of a value gives the value in its canonical form. -/
theorem decode_encode : ∀ (k : Kind) {v : Value} {b : Bytes}, k.isRegular = true →
    encode k v = .ok b → b.length < maxSize → ∀ rest, decode k (b ++ rest) = .ok (canonical k v)
  | .uint bits, v, b, regular, h, _, rest => by
      simp only [isRegular, decide_eq_true_eq] at regular
      obtain ⟨n, rfl, low, high, rfl⟩ := encodeInt_eq_ok.mp h
      rw [Nat.pow_eq] at high
      have cap : 2 ^ bits ≤ 2 ^ 256 := Nat.pow_le_pow_right (by decide) regular
      have same : (n % Nat.pow 2 256).toNat = n.toNat := by
        rw [Nat.pow_eq]
        omega
      have read := readUint_word (by omega : n.toNat < 2 ^ bits) regular rest
      simp only [decode, same, read, Except.ok_bind, pure, Except.pure, Except.map, canonical,
        Int.toNat_of_nonneg low]
  | .int bits, v, b, regular, h, _, rest => by
      simp only [isRegular, decide_eq_true_eq] at regular
      obtain ⟨n, rfl, low, high, rfl⟩ := encodeInt_eq_ok.mp h
      rw [Nat.pow_eq] at low high
      have read := readInt_word low (by omega) regular rest
      simp only [decode, Nat.pow_eq, Int.natCast_pow, Int.cast_ofNat_Int, read, Except.map,
        canonical]
  | .bool, v, b, _, h, _, rest => by
      cases v with
      | bool c =>
          obtain rfl := Except.ok.inj h
          cases c
          · simp [decode, readWord_word, canonical]
          · simp [decode, readWord_word, canonical]
      | _ => cases h
  | .address, v, b, _, h, _, rest => by
      obtain ⟨a, denoted, _, rfl⟩ := encode_address.mp h
      have size := length_addressBytes denoted
      have small : Bytes.toNat a < 2 ^ 160 := by
        have := Bytes.toNat_lt a
        rwa [size] at this
      have word : readUint 160 (Bytes.padStart 0 a ++ rest) = .ok (Bytes.toNat a) := by
        have padded := Bytes.length_padStart 0 (by omega : a.length ≤ 32)
        simp only [readUint, readWord_append padded, Bytes.toNat_padStart_zero, Except.ok_bind]
        exact if_pos small
      have bytes : Bytes.ofNat 20 (Bytes.toNat a) = a := by
        rw [← size]
        exact Bytes.ofNat_toNat a
      simp [decode, word, canonical, denoted, Address.ofBytes?, Address.ofWord, size, bytes]
  | .bytesOf n, v, b, regular, h, _, rest => by
      simp only [isRegular, decide_eq_true_eq] at regular
      cases hv : v.bytes? with
      | none => simp [encode, hv] at h
      | some a =>
          simp only [encode, hv] at h
          split at h
          · cases h
          · next short =>
            obtain rfl := Except.ok.inj h
            have size : (a ++ Bytes.zeros (32 - a.length)).length = 32 := by
              rw [List.length_append, Bytes.length_zeros]
              omega
            have padding : (a ++ Bytes.zeros (32 - a.length)).drop n = Bytes.zeros (32 - n) := by
              rw [List.drop_append, List.drop_eq_nil_of_le (by omega), List.nil_append]
              simp only [Bytes.zeros, List.drop_replicate]
              congr 1
              omega
            have content : (a ++ Bytes.zeros (32 - a.length)).take n =
                a ++ Bytes.zeros (n - a.length) := by
              rw [List.take_append, List.take_of_length_le (by omega)]
              simp only [Bytes.zeros, List.take_replicate]
              congr 2
              omega
            simp only [decode, readWord_append size, Except.ok_bind, List.take_left' size, padding,
              Bytes.any_ne_zero_zeros, content, canonical, hv]
            rfl
  | .bytes, v, b, _, h, fits, rest => by
      cases hv : v.bytes? with
      | none => simp [encode, hv] at h
      | some a =>
          simp only [encode, hv, Except.ok.injEq] at h
          subst h
          simp only [decode, readBytes_encodeBytes (ceil32_lt_of_encodeBytes fits), Except.map,
            canonical, hv]
  | .string, v, b, _, h, fits, rest => by
      cases v with
      | text s =>
          obtain rfl := Except.ok.inj h
          simp [decode, readBytes_encodeBytes (ceil32_lt_of_encodeBytes fits), canonical]
      | _ => cases h
  | .vector n k, v, b, regular, h, fits, rest => by
      simp only [isRegular, Bool.and_eq_true] at regular
      obtain ⟨vs, ps, hv, rfl, hps, rfl⟩ := encode_vector.mp h
      have items := readItems_join rest regular.2 (decode_encode k regular.2) hps fits
      simp only [decode, items, Except.map, canonical, hv, Option.getD_some]
  | .array k, v, b, regular, h, fits, rest => by
      simp only [isRegular] at regular
      obtain ⟨vs, ps, hv, hps, rfl⟩ := encode_array.mp h
      rw [List.length_append, Bytes.length_word] at fits
      have items := readItems_join rest regular (decode_encode k regular) hps
        (Nat.lt_of_le_of_lt (Nat.le_add_left _ _) fits)
      have count : vs.length < 2 ^ 256 := by
        have := length_le_headSize regular hps
        rw [Layout.length_join, maxSize] at fits
        omega
      simp only [decode, List.append_assoc, readWord_word count, Except.ok_bind,
        List.drop_left' (Bytes.length_word _), items, canonical, hv, Option.getD_some]
  | .tuple ks, v, b, regular, h, fits, rest => by
      simp only [isRegular, Bool.and_eq_true] at regular
      obtain ⟨vs, ps, hv, hn, hps, rfl⟩ := encode_tuple.mp h
      have bodies : ∀ p ∈ ps, p.body.length < maxSize := fun p hp =>
        Nat.lt_of_le_of_lt (Layout.length_body_le hp) fits
      have low : 32 * headCounts ks ≤ Layout.headSize ps := by
        rw [headSize_encodeFields regular.2 hn hps]
        exact headCounts_le regular.2
      have found : (Layout.join ps ++ rest).drop (Layout.headSize ps) = Layout.tail ps ++ rest := by
        rw [Layout.join, List.append_assoc, List.drop_left' (Layout.length_head _ _)]
      have small : Layout.headSize ps + (Layout.tail ps).length < 2 ^ 256 := by
        rw [← Layout.length_join]
        exact Nat.lt_trans fits (by decide)
      have both := decodeFields_encodeFields ks (Layout.tail ps ++ rest) regular.2 hn hps bodies
        low found small
      rw [← List.append_assoc, ← Layout.join] at both
      simp only [decode, both.1, both.2, Except.ok_bind, canonical, hv, Option.getD_some]

theorem decodeFields_encodeFields : ∀ (ks : List Kind) {vs : List Value}
    {ps : List Layout.Part} {head offset : Nat} {frame after : Bytes} (more : Bytes),
    areRegular ks = true → vs.length = ks.length → encodeFields ks vs = .ok ps →
    (∀ p ∈ ps, p.body.length < maxSize) → head ≤ offset →
    frame.drop offset = Layout.tail ps ++ after →
    offset + (Layout.tail ps).length < 2 ^ 256 →
    checkHead head frame ks (Layout.head ps offset ++ more) = .ok () ∧
      decodeFields frame ks (Layout.head ps offset ++ more) = .ok (canonicals ks vs)
  | [], [], _, _, _, _, _, _, _, _, _, _, _, _, _ => ⟨rfl, rfl⟩
  | k :: ks, v :: vs, ps, head, offset, frame, after, more, regular, hn, h, fits, low, found,
      small => by
      simp only [areRegular, Bool.and_eq_true] at regular
      obtain ⟨body, qs, hbody, hqs, rfl⟩ := encodeFields_cons.mp h
      have value := decode_encode k regular.1 hbody (fits _ List.mem_cons_self)
      have restFits : ∀ p ∈ qs, p.body.length < maxSize := fun p hp =>
        fits p (List.mem_cons_of_mem _ hp)
      have hn : vs.length = ks.length := by simpa using hn
      cases dynamic : k.isDynamic with
      | false =>
          simp only [Layout.tail_cons, part, dynamic, Bool.false_eq_true, if_false,
            List.nil_append] at found small
          have length := length_encode_of_static k regular.1 dynamic hbody
          have rest := decodeFields_encodeFields ks more regular.2 hn hqs restFits low found small
          simp only [Layout.head, part, dynamic, Bool.false_eq_true, if_false, List.append_assoc,
            checkHead, decodeFields, value, Except.ok_bind, headSize, List.drop_left' length,
            rest.1, rest.2, canonicals, and_self]
      | true =>
          simp only [Layout.tail_cons, part, dynamic, if_true, List.length_append] at found small
          have inside := lt_length_of_drop found (length_encode_pos regular.1 hbody)
          have here : decode k (frame.drop offset) = .ok (canonical k v) := by
            rw [found, List.append_assoc]
            exact value _
          have rest := decodeFields_encodeFields ks more regular.2 hn hqs restFits
            (Nat.le_add_right_of_le low) (drop_next found) (by omega)
          have word : offset < 2 ^ 256 := by omega
          simp only [Layout.head, part, dynamic, if_true, List.append_assoc, checkHead,
            decodeFields, readOffset_word low inside word, readWord_word word, here,
            Except.ok_bind, headSize, List.drop_left' (Bytes.length_word offset), rest.1, rest.2,
            canonicals, and_self]

end

/-- A list of values comes back from its encoding, whatever stands behind it. -/
theorem decodeAll_encodeAll {ks : List Kind} {vs : List Value} {b : Bytes}
    (regular : (Kind.tuple ks).isRegular = true) (h : encodeAll ks vs = .ok b)
    (fits : b.length < maxSize) (rest : Bytes) :
    decodeAll ks (b ++ rest) = .ok (canonicals ks vs) := by
  have whole := decode_encode (.tuple ks) regular h fits rest
  simp only [decode, canonical, Value.sequence?, Option.getD_some] at whole
  obtain ⟨_, check, whole⟩ := Except.bind_eq_ok.mp whole
  obtain ⟨values, fields, same⟩ := Except.bind_eq_ok.mp whole
  cases same
  simp only [decodeAll, check, fields, Except.ok_bind]

end Kind

end EthBatch.Abi
