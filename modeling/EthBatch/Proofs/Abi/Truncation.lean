import EthBatch.Proofs.Abi.Overlong

/-!
# Truncated encodings are refused

An encoding that is cut short anywhere does not decode, and the fault is one that the format
declares. What is read before the cut is in order, for it is a complete encoding with something
behind it; the first component that the cut touches is refused. Cutting a container cuts its head
or its tail, so both are followed at once: the head as far as it is there, and the part of the tail
that the offsets still reach.
-/

namespace EthBatch.Abi

/-- Decoding ends in a fault that the format declares. -/
def IsRefused {α : Type} (x : Except DecodeFault α) : Prop :=
  ∃ f, x = .error f ∧ f.isDeclared = true

namespace IsRefused

variable {α β : Type} {x : Except DecodeFault α}

theorem bind {g : α → Except DecodeFault β} : IsRefused x → IsRefused (x >>= g) := by
  rintro ⟨f, rfl, declared⟩
  exact ⟨f, rfl, declared⟩

theorem map {g : α → β} : IsRefused x → IsRefused (x.map g) := by
  rintro ⟨f, rfl, declared⟩
  exact ⟨f, rfl, declared⟩

theorem isDeclared (h : IsRefused x) {f : DecodeFault} (fault : x = .error f) :
    f.isDeclared = true := by
  obtain ⟨g, same, declared⟩ := h
  rw [fault, Except.error.injEq] at same
  rwa [same]

/-- What goes on only after a check is refused by the check or behind it. -/
theorem of_bind {g : α → Except DecodeFault β} (check : ∀ f, x = .error f → f.isDeclared = true)
    (rest : ∀ a, x = .ok a → IsRefused (g a)) : IsRefused (x >>= g) := by
  cases x with
  | error f => exact ⟨f, rfl, check f rfl⟩
  | ok a => exact rest a rfl

end IsRefused

theorem isRefused_readWord {data : Bytes} (short : data.length < 32) :
    IsRefused (readWord data) := by
  rw [readWord_eq, if_neg (by omega)]
  exact ⟨.short, rfl, rfl⟩

theorem isRefused_readWord_take {data : Bytes} {n : Nat} (short : n < 32) :
    IsRefused (readWord (data.take n)) := by
  apply isRefused_readWord
  rw [List.length_take]
  omega

theorem take_append_of_length_le {a b : Bytes} {n : Nat} (h : a.length ≤ n) :
    (a ++ b).take n = a ++ b.take (n - a.length) := by
  rw [List.take_append, List.take_of_length_le h]

/-- A byte string is cut in the word of its length or in its padded bytes. -/
theorem isRefused_readBytes_take {b : Bytes} {n : Nat} (fits : Bytes.ceil32 b.length < maxSize)
    (cut : n < (Kind.encodeBytes b).length) :
    IsRefused (readBytes ((Kind.encodeBytes b).take n)) := by
  by_cases word : n < 32
  · exact (isRefused_readWord_take word).bind
  · have le := Bytes.le_ceil32 b.length
    have size : ¬ Nat.pow 2 63 ≤ Bytes.ceil32 b.length := Nat.not_le.mpr fits
    rw [maxSize] at fits
    rw [Kind.encodeBytes, List.length_append, Bytes.length_word, Bytes.length_padEnd] at cut
    rw [Kind.encodeBytes, take_append_of_length_le (by rw [Bytes.length_word]; omega), readBytes,
      readWord_word (by omega), Except.ok_bind, List.drop_left' (Bytes.length_word _)]
    dsimp only
    rw [if_neg size, if_pos]
    · exact ⟨.short, rfl, rfl⟩
    · rw [List.length_take, List.length_take, Bytes.length_word]
      omega

namespace Kind

/-- No cut encoding of the type decodes. -/
def RefusesCuts [Platform] (k : Kind) : Prop :=
  ∀ ⦃v : Value⦄ ⦃b : Bytes⦄ ⦃n : Nat⦄, encode k v = .ok b → b.length < maxSize → n < b.length →
    IsRefused (decode k (b.take n))

/-! ## One word or one byte string -/

/-- An encoding of one word is refused when the word is not there in full. -/
theorem refusesCuts_of_word [Platform] {k : Kind} (regular : k.isRegular = true)
    (static : k.isDynamic = false) (size : k.staticSize = 32)
    (word : ∀ {data : Bytes}, data.length < 32 → IsRefused (decode k data)) : k.RefusesCuts := by
  intro v b n h _ cut
  rw [length_encode_of_static k regular static h, size] at cut
  refine word ?_
  rw [List.length_take]
  omega

theorem refusesCuts_bytes [Platform] : RefusesCuts .bytes := by
  intro v b n h fits cut
  cases hv : v.bytes? with
  | none => simp [encode, hv] at h
  | some a =>
      simp only [encode, hv, Except.ok.injEq] at h
      subst h
      rw [decode]
      exact (isRefused_readBytes_take (ceil32_lt_of_encodeBytes fits) cut).map

theorem refusesCuts_string [Platform] : RefusesCuts .string := by
  intro v b n h fits cut
  cases v with
  | text s =>
      obtain rfl := Except.ok.inj h
      exact (isRefused_readBytes_take (ceil32_lt_of_encodeBytes fits) cut).bind
  | _ => cases h

/-! ## Components of a container -/

section Fields

variable {ks : List Kind} {vs : List Value} {ps : List Layout.Part} {head offset m t : Nat}
variable {frame : Bytes}

/-- The part of a head that is there passes its check, or is refused by it. -/
theorem isDeclared_of_checkHead_take [Platform] (more : Bytes) (regular : areRegular ks = true)
    (items : ∀ k ∈ ks, k.RefusesCuts) (hn : vs.length = ks.length)
    (h : encodeFields ks vs = .ok ps) (fits : ∀ p ∈ ps, p.body.length < maxSize) {f : DecodeFault}
    (fault : checkHead head frame ks ((Layout.head ps offset ++ more).take m) = .error f) :
    f.isDeclared = true := by
  induction ks generalizing vs ps offset m with
  | nil => cases fault
  | cons k ks ih =>
      match vs, hn with
      | v :: vs, hn =>
          simp only [areRegular, Bool.and_eq_true] at regular
          obtain ⟨body, qs, hbody, hqs, rfl⟩ := encodeFields_cons.mp h
          have rest {offset m : Nat} := @ih vs qs offset m regular.2
            (fun k' mem => items k' (List.mem_cons_of_mem _ mem)) (by simpa using hn) hqs
            (fun p hp => fits p (List.mem_cons_of_mem _ hp))
          rw [checkHead] at fault
          cases dynamic : k.isDynamic with
          | true =>
              simp only [dynamic, if_true, Layout.head, part, List.append_assoc, headSize,
                List.drop_take, List.drop_left' (Bytes.length_word _)] at fault
              rcases Except.bind_eq_error.mp fault with fault | ⟨_, _, fault⟩
              · exact isDeclared_of_readOffset fault
              · exact rest fault
          | false =>
              have length := length_encode_of_static k regular.1 dynamic hbody
              simp only [dynamic, Bool.false_eq_true, if_false, Layout.head, part,
                List.append_assoc, headSize, List.drop_take, List.drop_left' length] at fault
              rcases Except.bind_eq_error.mp fault with fault | ⟨_, _, fault⟩
              · by_cases whole : body.length ≤ m
                · rw [take_append_of_length_le whole,
                    decode_encode k regular.1 hbody (fits _ List.mem_cons_self)] at fault
                  cases fault
                · rw [List.take_append_of_le_length (by omega)] at fault
                  exact (items k List.mem_cons_self hbody (fits _ List.mem_cons_self)
                    (Nat.lt_of_not_le whole)).isDeclared fault
              · exact rest fault

/-- Reading the components of a container arrives at the cut, in the head or behind an offset. Of
the head there are `m` bytes, of the tail `t`. -/
theorem isRefused_decodeFields [Platform] (more : Bytes) (regular : areRegular ks = true)
    (items : ∀ k ∈ ks, k.RefusesCuts) (hn : vs.length = ks.length)
    (h : encodeFields ks vs = .ok ps) (fits : ∀ p ∈ ps, p.body.length < maxSize)
    (found : frame.drop offset = (Layout.tail ps).take t)
    (small : offset + (Layout.tail ps).length < 2 ^ 256)
    (cut : m < Layout.headSize ps ∨ t < (Layout.tail ps).length) :
    IsRefused (decodeFields frame ks ((Layout.head ps offset ++ more).take m)) := by
  induction ks generalizing vs ps offset m t with
  | nil =>
      match vs, hn with
      | [], _ =>
          cases h
          simp at cut
  | cons k ks ih =>
      match vs, hn with
      | v :: vs, hn =>
          simp only [areRegular, Bool.and_eq_true] at regular
          obtain ⟨body, qs, hbody, hqs, rfl⟩ := encodeFields_cons.mp h
          have bodyFits : body.length < maxSize := fits _ List.mem_cons_self
          have item := items k List.mem_cons_self
          have rest {offset m t : Nat} := @ih vs qs offset m t regular.2
            (fun k' mem => items k' (List.mem_cons_of_mem _ mem)) (by simpa using hn) hqs
            (fun p hp => fits p (List.mem_cons_of_mem _ hp))
          rw [decodeFields_cons, readField]
          cases dynamic : k.isDynamic with
          | true =>
              simp only [Layout.headSize_cons, Layout.tail_cons, Layout.Part.headSize, part,
                dynamic, if_true, List.length_append] at found small cut
              simp only [Layout.head, part, dynamic, if_true, List.append_assoc, headSize]
              by_cases word : m < 32
              · exact (isRefused_readWord_take word).bind.bind
              · rw [take_append_of_length_le (by rw [Bytes.length_word]; omega),
                  readWord_word (by omega), Except.ok_bind,
                  List.drop_left' (Bytes.length_word _), Bytes.length_word]
                by_cases whole : body.length ≤ t
                · rw [take_append_of_length_le whole] at found
                  rw [found, decode_encode k regular.1 hbody bodyFits, Except.ok_bind]
                  refine (rest (t := t - body.length) ?_ (by omega) (by omega)).bind
                  rw [← List.drop_drop, found, List.drop_left]
                · rw [List.take_append_of_le_length (by omega)] at found
                  rw [found]
                  exact (item hbody bodyFits (by omega)).bind
          | false =>
              have length := length_encode_of_static k regular.1 dynamic hbody
              simp only [Layout.headSize_cons, Layout.tail_cons, Layout.Part.headSize, part,
                dynamic, Bool.false_eq_true, if_false, List.nil_append] at found small cut
              simp only [Layout.head, part, dynamic, Bool.false_eq_true, if_false,
                List.append_assoc, headSize]
              by_cases whole : body.length ≤ m
              · rw [take_append_of_length_le whole, decode_encode k regular.1 hbody bodyFits,
                  Except.ok_bind, List.drop_left' length]
                exact (rest found small (by omega)).bind
              · rw [List.take_append_of_le_length (by omega)]
                exact (item hbody bodyFits (by omega)).bind

/-- A container that is cut anywhere has a component that is refused. -/
theorem isRefused_decodeFields_take [Platform] (regular : areRegular ks = true)
    (items : ∀ k ∈ ks, k.RefusesCuts) (hn : vs.length = ks.length)
    (h : encodeFields ks vs = .ok ps) (fits : (Layout.join ps).length < maxSize)
    (cut : m < (Layout.join ps).length) :
    IsRefused (decodeFields ((Layout.join ps).take m) ks ((Layout.join ps).take m)) := by
  have bodies : ∀ p ∈ ps, p.body.length < maxSize := fun p hp =>
    Nat.lt_of_le_of_lt (Layout.length_body_le hp) fits
  have found : ((Layout.join ps).take m).drop (Layout.headSize ps) =
      (Layout.tail ps).take (m - Layout.headSize ps) := by
    rw [Layout.join, List.drop_take, List.drop_left' (Layout.length_head _ _)]
  rw [Layout.length_join] at fits cut
  exact isRefused_decodeFields _ regular items hn h bodies found (Nat.lt_trans fits (by decide))
    (by omega)

theorem RefusesCuts.tuple [Platform] (regular : areRegular ks = true)
    (items : ∀ k ∈ ks, k.RefusesCuts) : RefusesCuts (.tuple ks) := by
  intro v b m h fits cut
  obtain ⟨vs, ps, _, hn, hps, rfl⟩ := encode_tuple.mp h
  have bodies : ∀ p ∈ ps, p.body.length < maxSize := fun p hp =>
    Nat.lt_of_le_of_lt (Layout.length_body_le hp) fits
  rw [decode]
  refine IsRefused.of_bind
    (fun f fault => isDeclared_of_checkHead_take _ regular items hn hps bodies fault) fun _ _ => ?_
  exact (isRefused_decodeFields_take regular items hn hps fits cut).bind

end Fields

/-! ## Arrays are tuples of one type -/

section Items

variable {k : Kind} {vs : List Value} {ps : List Layout.Part} {n m : Nat} {frame data : Bytes}

theorem areRegular_replicate (regular : k.isRegular = true) :
    areRegular (List.replicate n k) = true := by
  induction n with
  | zero => rfl
  | succ n ih => rw [List.replicate_succ, areRegular, regular, ih, Bool.and_self]

theorem encodeFields_replicate [Platform] (k : Kind) (vs : List Value) :
    encodeFields (List.replicate vs.length k) vs = encodeEach (encode k) k vs := by
  induction vs with
  | nil => rfl
  | cons v vs ih => rw [List.length_cons, List.replicate_succ, encodeFields, encodeEach, ih]

theorem decodeFields_replicate_of_dynamic (dynamic : k.isDynamic = true) :
    decodeFields frame (List.replicate n k) data = followEach (decode k) frame n data := by
  induction n generalizing data with
  | zero => rfl
  | succ n ih =>
      rw [List.replicate_succ, decodeFields_cons, readField, if_pos dynamic, followEach, headSize,
        if_pos dynamic, ih]
      cases readWord data <;> rfl

theorem decodeFields_replicate_of_static (static : k.isDynamic = false) :
    decodeFields frame (List.replicate n k) data = readEach k.staticSize (decode k) n data := by
  have fixed : ¬ k.isDynamic = true := by simp [static]
  induction n generalizing data with
  | zero => rfl
  | succ n ih =>
      rw [List.replicate_succ, decodeFields_cons, readField, if_neg fixed, readEach, headSize,
        if_neg fixed, ih]

/-- The items of an array, static or behind offsets, that is cut anywhere. -/
theorem isRefused_readItems [Platform] (regular : k.isRegular = true) (item : k.RefusesCuts)
    (h : encodeEach (encode k) k vs = .ok ps) (fits : (Layout.join ps).length < maxSize)
    (cut : m < (Layout.join ps).length) :
    IsRefused (readItems k (decode k) vs.length ((Layout.join ps).take m)) := by
  rw [← encodeFields_replicate] at h
  have fields := isRefused_decodeFields_take (areRegular_replicate regular)
    (fun k' mem => List.eq_of_mem_replicate mem ▸ item) (List.length_replicate).symm h fits cut
  rw [readItems]
  cases dynamic : k.isDynamic with
  | false => rwa [decodeFields_replicate_of_static dynamic] at fields
  | true =>
      rw [decodeFields_replicate_of_dynamic dynamic] at fields
      exact IsRefused.of_bind (fun f fault => isDeclared_of_checkOffsets fault) fun _ _ => fields

theorem RefusesCuts.vector [Platform] (regular : k.isRegular = true) (item : k.RefusesCuts) :
    RefusesCuts (.vector n k) := by
  intro v b m h fits cut
  obtain ⟨vs, ps, _, rfl, hps, rfl⟩ := encode_vector.mp h
  rw [decode]
  exact (isRefused_readItems regular item hps fits cut).map

theorem RefusesCuts.array [Platform] (regular : k.isRegular = true) (item : k.RefusesCuts) :
    RefusesCuts (.array k) := by
  intro v b m h fits cut
  obtain ⟨vs, ps, _, hps, rfl⟩ := encode_array.mp h
  rw [List.length_append, Bytes.length_word] at fits cut
  rw [decode]
  by_cases word : m < 32
  · exact (isRefused_readWord_take word).bind
  · have count : vs.length < 2 ^ 256 := by
      have := length_le_headSize regular hps
      rw [Layout.length_join, maxSize] at fits
      omega
    rw [take_append_of_length_le (by rw [Bytes.length_word]; omega), readWord_word count,
      Except.ok_bind, List.drop_left' (Bytes.length_word _), Bytes.length_word]
    exact (isRefused_readItems regular item hps (by omega) (by omega)).bind

end Items

/-! ## All types -/

mutual

/-- An encoding that is cut short does not decode, whatever its type. -/
theorem refusesCuts [Platform] : ∀ k : Kind, k.isRegular = true → k.RefusesCuts
  | .uint _, regular => refusesCuts_of_word regular rfl rfl fun short => by
      rw [decode]
      exact (isRefused_readWord short).bind.bind.map
  | .int _, regular => refusesCuts_of_word regular rfl rfl fun short => by
      rw [decode]
      exact (isRefused_readWord short).bind.map
  | .bool, regular => refusesCuts_of_word regular rfl rfl fun short =>
      (isRefused_readWord short).bind
  | .address, regular => refusesCuts_of_word regular rfl rfl fun short =>
      (isRefused_readWord short).bind.bind
  | .bytesOf _, regular => refusesCuts_of_word regular rfl rfl fun short =>
      (isRefused_readWord short).bind
  | .bytes, _ => refusesCuts_bytes
  | .string, _ => refusesCuts_string
  | .vector _ k, regular => by
      simp only [isRegular, Bool.and_eq_true] at regular
      exact (refusesCuts k regular.2).vector regular.2
  | .array k, regular => by
      simp only [isRegular] at regular
      exact (refusesCuts k regular).array regular
  | .tuple ks, regular => by
      simp only [isRegular, Bool.and_eq_true] at regular
      exact .tuple regular.2 (each_refusesCuts ks regular.2)

theorem each_refusesCuts [Platform] : ∀ ks : List Kind, areRegular ks = true →
    ∀ k ∈ ks, k.RefusesCuts
  | [], _, _, mem => nomatch mem
  | k :: ks, regular, k', mem => by
      simp only [areRegular, Bool.and_eq_true] at regular
      rcases List.mem_cons.mp mem with same | mem
      · rw [same]
        exact refusesCuts k regular.1
      · exact each_refusesCuts ks regular.2 k' mem

end

/-- A list of values is encoded as a tuple, and its cut encodings are refused as those of the
tuple. -/
theorem isRefused_decodeAll_take [Platform] {ks : List Kind} {vs : List Value} {b : Bytes} {n : Nat}
    (regular : (Kind.tuple ks).isRegular = true) (h : encodeAll ks vs = .ok b)
    (fits : b.length < maxSize) (cut : n < b.length) : IsRefused (decodeAll ks (b.take n)) := by
  obtain ⟨f, refused, declared⟩ := refusesCuts (.tuple ks) regular h fits cut
  refine ⟨f, ?_, declared⟩
  rw [decode] at refused
  rcases Except.bind_eq_error.mp refused with check | ⟨_, check, fields⟩
  · rw [decodeAll, check, Except.error_bind]
  · rw [decodeAll, check, Except.ok_bind]
    exact (Except.bind_eq_error.mp fields).resolve_right (by simp)

end Kind

end EthBatch.Abi
