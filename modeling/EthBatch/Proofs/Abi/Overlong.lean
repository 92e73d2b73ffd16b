import EthBatch.Proofs.Abi.Faults

/-!
# Byte strings of a length that cannot be read

A length word of a byte string may state anything. If it states `2 ^ 63` bytes or more, reading
ends in a fault that the format does not declare, and nothing needs to stand behind the word.
`Kind.Overlong` follows the offsets of a value to such a byte string: everything that is read
before it is in order. It says of every type and all data when decoding ends in that fault.
-/

namespace EthBatch.Abi

open Bytes (wordAt wordAt_drop ceil32)

theorem isDeclared_of_readWord {data : Bytes} {f : DecodeFault} (h : readWord data = .error f) :
    f.isDeclared = true := by
  rw [readWord_eq] at h
  split at h
  · cases h
  · cases h
    rfl

theorem isDeclared_of_readUint {bits : Nat} {data : Bytes} {f : DecodeFault}
    (h : readUint bits data = .error f) : f.isDeclared = true := by
  rcases Except.bind_eq_error.mp h with h | ⟨n, _, h⟩
  · exact isDeclared_of_readWord h
  · split at h
    · cases h
    · cases h
      rfl

theorem isDeclared_of_readInt {bits : Nat} {data : Bytes} {f : DecodeFault}
    (h : readInt bits data = .error f) : f.isDeclared = true := by
  rcases Except.bind_eq_error.mp h with h | ⟨n, _, h⟩
  · exact isDeclared_of_readWord h
  · split at h
    · cases h
    · split at h
      · cases h
      · cases h
        rfl

theorem fault_of_readEach {size n : Nat} {item : Bytes → Except DecodeFault Value} {data : Bytes}
    {f : DecodeFault} (h : readEach size item n data = .error f) : ∃ b, item b = .error f := by
  induction n generalizing data with
  | zero => cases h
  | succ n ih =>
      rcases Except.bind_eq_error.mp h with h | ⟨v, _, h⟩
      · exact ⟨data, h⟩
      · rcases Except.bind_eq_error.mp h with h | ⟨vs, _, h⟩
        · exact ih h
        · cases h

namespace Kind

/-! ## Components -/

/-- Where a component stands in the head of its container. -/
def headStart (ks : List Kind) (i : Nat) : Nat := ((ks.take i).map headSize).sum

@[simp] theorem headStart_zero (ks : List Kind) : headStart ks 0 = 0 := by simp [headStart]

@[simp] theorem headStart_succ (k : Kind) (ks : List Kind) (i : Nat) :
    headStart (k :: ks) (i + 1) = k.headSize + headStart ks i := by simp [headStart]

/-- Is the place of a component in the head in order? An offset leads behind the head and not
behind the frame, and a static component decodes. -/
inductive HeadSlot (head : Nat) (frame : Bytes) (k : Kind) (data : Bytes) : Prop where
  | offset (dynamic : k.isDynamic = true) (long : 32 ≤ data.length) (behind : head ≤ wordAt data 0)
      (inside : wordAt data 0 < frame.length)
  | value {v : Value} (static : k.isDynamic = false) (decodes : decode k data = .ok v)

/-- Reads a component where it stands, or behind an offset from the start of the frame. -/
def readField (frame : Bytes) (k : Kind) (data : Bytes) : Except DecodeFault Value :=
  if k.isDynamic then do
    let p ← readWord data
    decode k (frame.drop p)
  else decode k data

variable {head : Nat} {frame data : Bytes} {k : Kind} {ks : List Kind} {f : DecodeFault}

theorem readField_of_dynamic (dynamic : k.isDynamic = true) (long : 32 ≤ data.length) :
    readField frame k data = decode k (frame.drop (wordAt data 0)) := by
  rw [readField, if_pos dynamic, readWord_eq, if_pos long, Except.ok_bind]

theorem decodeFields_cons (frame : Bytes) (k : Kind) (ks : List Kind) (data : Bytes) :
    decodeFields frame (k :: ks) data = (do
      let v ← readField frame k data
      let vs ← decodeFields frame ks (data.drop k.headSize)
      Except.ok (v :: vs)) := by
  rw [decodeFields, readField]
  by_cases dynamic : k.isDynamic = true
  · simp only [if_pos dynamic]
    cases readWord data <;> rfl
  · simp only [if_neg dynamic]

theorem checkHead_cons_eq_ok : checkHead head frame (k :: ks) data = .ok () ↔
    HeadSlot head frame k data ∧ checkHead head frame ks (data.drop k.headSize) = .ok () := by
  have first := @readOffset_drop head 0
  simp only [List.drop_zero] at first
  rw [checkHead]
  by_cases dynamic : k.isDynamic = true
  · rw [if_pos dynamic, Except.bind_eq_ok]
    constructor
    · rintro ⟨p, offset, rest⟩
      obtain ⟨long, rfl, behind, inside⟩ := first.mp offset
      exact ⟨.offset dynamic (by omega) behind inside, rest⟩
    · rintro ⟨slot, rest⟩
      cases slot with
      | offset _ long behind inside =>
          exact ⟨_, first.mpr ⟨by omega, rfl, behind, inside⟩, rest⟩
      | value static _ => exact absurd dynamic (by simp [static])
  · rw [if_neg dynamic, Except.bind_eq_ok]
    constructor
    · rintro ⟨v, decodes, rest⟩
      exact ⟨.value (by simpa using dynamic) decodes, rest⟩
    · rintro ⟨slot, rest⟩
      cases slot with
      | offset dynamic' _ _ _ => exact absurd dynamic' dynamic
      | value _ decodes => exact ⟨_, decodes, rest⟩

/-- The head of a tuple is in order if the place of every component is. -/
theorem checkHead_eq_ok : checkHead head frame ks data = .ok () ↔
    ∀ i k, ks[i]? = some k → HeadSlot head frame k (data.drop (headStart ks i)) := by
  induction ks generalizing data with
  | nil => simp [checkHead]
  | cons k ks ih =>
      rw [checkHead_cons_eq_ok, ih]
      constructor
      · rintro ⟨first, rest⟩ i k' hk
        cases i with
        | zero =>
            obtain rfl : k = k' := by simpa using hk
            simpa using first
        | succ i =>
            have slot := rest i k' (by simpa using hk)
            rwa [List.drop_drop, ← headStart_succ] at slot
      · intro all
        refine ⟨by simpa using all 0 k rfl, ?_⟩
        intro i k' hk
        rw [List.drop_drop, ← headStart_succ]
        exact all (i + 1) k' (by simpa using hk)

/-- The fault of the components is that of the first one that does not decode. -/
theorem decodeFields_eq_error : decodeFields frame ks data = .error f ↔
    ∃ i k, ks[i]? = some k ∧
      (∀ j < i, ∀ k', ks[j]? = some k' →
        ∃ v, readField frame k' (data.drop (headStart ks j)) = .ok v) ∧
      readField frame k (data.drop (headStart ks i)) = .error f := by
  induction ks generalizing data with
  | nil => simp [decodeFields]
  | cons k ks ih =>
      rw [decodeFields_cons, Except.bind_eq_error]
      constructor
      · rintro (here | ⟨v, first, rest⟩)
        · exact ⟨0, k, rfl, fun j hj => absurd hj (Nat.not_lt_zero j), by simpa using here⟩
        · have rest := (Except.bind_eq_error.mp rest).resolve_right (by simp)
          obtain ⟨i, k', hk, before, here⟩ := ih.mp rest
          simp only [List.drop_drop, ← headStart_succ] at before here
          refine ⟨i + 1, k', by simpa using hk, ?_, here⟩
          intro j hj k'' hk''
          cases j with
          | zero =>
              obtain rfl : k = k'' := by simpa using hk''
              exact ⟨v, by simpa using first⟩
          | succ j => exact before j (by omega) k'' (by simpa using hk'')
      · rintro ⟨i, k', hk, before, here⟩
        cases i with
        | zero =>
            obtain rfl : k = k' := by simpa using hk
            exact .inl (by simpa using here)
        | succ i =>
            obtain ⟨v, first⟩ := before 0 (by omega) k rfl
            refine .inr ⟨v, by simpa using first, ?_⟩
            refine Except.bind_eq_error.mpr (.inl (ih.mpr ⟨i, k', by simpa using hk, ?_, ?_⟩))
            · intro j hj k'' hk''
              rw [List.drop_drop, ← headStart_succ]
              exact before (j + 1) (by omega) k'' (by simpa using hk'')
            · rwa [List.drop_drop, ← headStart_succ]

/-! ## The way to an overlong byte string -/

/-- Reading a value arrives at a byte string whose length cannot be read, all before it being in
order. -/
inductive Overlong : Kind → Bytes → Prop where
  | bytes {data : Bytes} (long : 32 ≤ data.length) (large : maxSize ≤ ceil32 (wordAt data 0)) :
      Overlong .bytes data
  | string {data : Bytes} (long : 32 ≤ data.length) (large : maxSize ≤ ceil32 (wordAt data 0)) :
      Overlong .string data
  /-- Through an item of a fixed array, the items before it being in order. -/
  | vector {n i : Nat} {k : Kind} {data : Bytes} (dynamic : k.isDynamic = true)
      (offsets : ∀ j < n, 32 * j + 32 ≤ data.length ∧ 32 * n ≤ wordAt data (32 * j) ∧
        wordAt data (32 * j) < data.length)
      (inside : i < n)
      (before : ∀ j < i, ∃ v, decode k (data.drop (wordAt data (32 * j))) = .ok v)
      (here : Overlong k (data.drop (wordAt data (32 * i)))) : Overlong (.vector n k) data
  /-- An array is a fixed array behind its length. -/
  | array {k : Kind} {data : Bytes} (long : 32 ≤ data.length)
      (here : Overlong (.vector (wordAt data 0) k) (data.drop 32)) : Overlong (.array k) data
  /-- Through a component of a tuple, the head and the components before it being in order. -/
  | tuple {i : Nat} {k : Kind} {ks : List Kind} {data : Bytes}
      (head : ∀ j k', ks[j]? = some k' →
        HeadSlot (32 * headCounts ks) data k' (data.drop (headStart ks j)))
      (component : ks[i]? = some k) (dynamic : k.isDynamic = true)
      (before : ∀ j < i, ∀ k', ks[j]? = some k' →
        ∃ v, readField data k' (data.drop (headStart ks j)) = .ok v)
      (here : Overlong k (data.drop (wordAt data (headStart ks i)))) : Overlong (.tuple ks) data

theorem anyDynamic_of_mem (mem : k ∈ ks) (dynamic : k.isDynamic = true) :
    anyDynamic ks = true := by
  induction ks with
  | nil => cases mem
  | cons first ks ih =>
      rcases List.mem_cons.mp mem with rfl | mem
      · simp [anyDynamic, dynamic]
      · simp [anyDynamic, ih mem]

/-- A type without byte strings has no overlong values. -/
theorem Overlong.isDynamic (h : Overlong k data) : k.isDynamic = true := by
  cases h with
  | bytes _ _ => rfl
  | string _ _ => rfl
  | vector dynamic _ _ _ _ => simpa [Kind.isDynamic] using dynamic
  | array _ _ => rfl
  | tuple _ component dynamic _ _ =>
      rw [Kind.isDynamic]
      exact anyDynamic_of_mem (List.mem_of_getElem? component) dynamic

/-! ## Decoding ends there -/

theorem ne_tooLong_of_isDeclared (h : f.isDeclared = true) : f ≠ .tooLong := by
  rintro rfl
  cases h

/-- Decoding a type ends in the fault of an unreadable length at an overlong value, and only
there. -/
def Stops (k : Kind) : Prop := ∀ data, decode k data = .error .tooLong ↔ Overlong k data

theorem decode_vector_eq_tooLong {n : Nat} (item : k.Stops) :
    decode (.vector n k) data = .error .tooLong ↔ Overlong (.vector n k) data := by
  rw [decode, Except.map_eq_error, readItems]
  by_cases dynamic : k.isDynamic = true
  · rw [if_pos dynamic, Except.bind_eq_error]
    have long (offsets : ∀ j < n, 32 * j + 32 ≤ data.length ∧ 32 * n ≤ wordAt data (32 * j) ∧
        wordAt data (32 * j) < data.length) : 32 * n ≤ data.length := by
      cases n with
      | zero => omega
      | succ n =>
          have := (offsets n (by omega)).1
          omega
    constructor
    · rintro (h | ⟨_, check, h⟩)
      · exact absurd rfl (ne_tooLong_of_isDeclared (isDeclared_of_checkOffsets h))
      · have offsets := checkOffsets_eq_ok.mp check
        obtain ⟨i, inside, before, here⟩ := (followEach_eq_error (long offsets)).mp h
        exact .vector dynamic offsets inside before ((item _).mp here)
    · intro h
      cases h with
      | vector _ offsets inside before here =>
          refine .inr ⟨(), checkOffsets_eq_ok.mpr offsets, ?_⟩
          exact (followEach_eq_error (long offsets)).mpr
            ⟨_, inside, before, (item _).mpr here⟩
  · rw [if_neg dynamic]
    constructor
    · intro h
      obtain ⟨b, h⟩ := fault_of_readEach h
      exact absurd ((item b).mp h).isDynamic dynamic
    · intro h
      cases h with
      | vector dynamic' _ _ _ _ => exact absurd dynamic' dynamic

theorem decode_array_eq_tooLong (item : k.Stops) :
    decode (.array k) data = .error .tooLong ↔ Overlong (.array k) data := by
  have body (n : Nat) (b : Bytes) : (do
        let vs ← readItems k (decode k) n b
        Except.ok (Value.tuple vs)) = decode (.vector n k) b := by
    rw [decode]
    cases readItems k (decode k) n b <;> rfl
  rw [decode, readWord_eq]
  by_cases long : 32 ≤ data.length
  · rw [if_pos long, Except.ok_bind, body, decode_vector_eq_tooLong item]
    constructor
    · exact .array long
    · intro h
      cases h with
      | array _ here => exact here
  · rw [if_neg long]
    constructor
    · intro h
      cases h
    · intro h
      cases h with
      | array long' _ => exact absurd long' long

theorem not_checkHead_eq_tooLong (items : ∀ k ∈ ks, k.Stops) :
    checkHead head frame ks data ≠ .error .tooLong := by
  induction ks generalizing data with
  | nil => nofun
  | cons k ks ih =>
      intro h
      rw [checkHead] at h
      have rest := @ih (data.drop k.headSize) fun k' mem => items k' (List.mem_cons_of_mem _ mem)
      by_cases dynamic : k.isDynamic = true
      · rw [if_pos dynamic] at h
        rcases Except.bind_eq_error.mp h with h | ⟨_, _, h⟩
        · exact absurd rfl (ne_tooLong_of_isDeclared (isDeclared_of_readOffset h))
        · exact rest h
      · rw [if_neg dynamic] at h
        rcases Except.bind_eq_error.mp h with h | ⟨_, _, h⟩
        · exact dynamic ((items k List.mem_cons_self _).mp h).isDynamic
        · exact rest h

theorem decode_tuple_eq_tooLong (items : ∀ k ∈ ks, k.Stops) :
    decode (.tuple ks) data = .error .tooLong ↔ Overlong (.tuple ks) data := by
  rw [decode, Except.bind_eq_error]
  constructor
  · rintro (h | ⟨_, check, h⟩)
    -- The head check decodes static components only, and these hold no byte strings.
    · exact absurd h (not_checkHead_eq_tooLong items)
    · have fields := (Except.bind_eq_error.mp h).resolve_right (by simp)
      have slots := checkHead_eq_ok.mp check
      obtain ⟨i, k, component, before, here⟩ := decodeFields_eq_error.mp fields
      cases slots i k component with
      | offset dynamic long _ _ =>
          rw [readField_of_dynamic dynamic long, wordAt_drop, Nat.add_zero] at here
          exact .tuple slots component dynamic before
            ((items k (List.mem_of_getElem? component) _).mp here)
      | value _ decodes =>
          rename_i v static
          rw [readField, if_neg (by simp [static]), decodes] at here
          cases here
  · intro h
    cases h with
    | tuple slots component dynamic before here =>
        refine .inr ⟨(), checkHead_eq_ok.mpr slots, ?_⟩
        refine Except.bind_eq_error.mpr (.inl (decodeFields_eq_error.mpr
          ⟨_, _, component, before, ?_⟩))
        cases slots _ _ component with
        | offset _ long _ _ =>
            rw [readField_of_dynamic dynamic long, wordAt_drop, Nat.add_zero]
            exact (items _ (List.mem_of_getElem? component) _).mpr here
        | value static _ => exact absurd dynamic (by simp [static])

/-- A byte string stops at a length that cannot be read, and text stops there too. -/
theorem stops_bytes : Stops .bytes := by
  intro data
  rw [decode, Except.map_eq_error, readBytes_eq_tooLong]
  constructor
  · rintro ⟨long, large⟩
    exact .bytes long large
  · intro h
    cases h with
    | bytes long large => exact ⟨long, large⟩

theorem stops_string : Stops .string := by
  intro data
  rw [decode, Except.bind_eq_error, readBytes_eq_tooLong]
  constructor
  · rintro (⟨long, large⟩ | ⟨b, _, h⟩)
    · exact .string long large
    · split at h <;> cases h
  · intro h
    cases h with
    | string long large => exact .inl ⟨long, large⟩

/-- A type in one word has faults of the format only. -/
theorem stops_of_isDeclared (static : k.isDynamic = false)
    (declared : ∀ {data f}, decode k data = .error f → f.isDeclared = true) : k.Stops := by
  intro data
  constructor
  · intro h
    exact absurd rfl (ne_tooLong_of_isDeclared (declared h))
  · intro h
    exact absurd h.isDynamic (by simp [static])

mutual

/-- Decoding ends in the fault of an unreadable length exactly at an overlong byte string. -/
theorem decode_eq_tooLong : ∀ k : Kind, k.Stops
  | .uint bits => stops_of_isDeclared rfl fun h => by
      rw [decode, Except.map_eq_error] at h
      rcases Except.bind_eq_error.mp h with h | ⟨n, _, h⟩
      · exact isDeclared_of_readUint h
      · cases h
  | .int bits => stops_of_isDeclared rfl fun h => by
      rw [decode, Except.map_eq_error] at h
      exact isDeclared_of_readInt h
  | .bool => stops_of_isDeclared rfl fun h => by
      rcases Except.bind_eq_error.mp h with h | ⟨n, _, h⟩
      · exact isDeclared_of_readWord h
      · split at h
        · cases h
        · split at h
          · cases h
          · cases h
            rfl
  | .address => stops_of_isDeclared rfl fun h => by
      rcases Except.bind_eq_error.mp h with h | ⟨n, _, h⟩
      · exact isDeclared_of_readUint h
      · cases h
  | .fixed isSigned bits places => stops_of_isDeclared rfl fun h => by
      rw [decode] at h
      split at h
      · rcases Except.bind_eq_error.mp h with h | ⟨n, _, h⟩
        · exact isDeclared_of_readInt h
        · cases h
      · rcases Except.bind_eq_error.mp h with h | ⟨n, _, h⟩
        · exact isDeclared_of_readUint (Except.map_eq_error.mp h)
        · cases h
  | .bytesOf n => stops_of_isDeclared rfl fun h => by
      rcases Except.bind_eq_error.mp h with h | ⟨_, _, h⟩
      · exact isDeclared_of_readWord h
      · dsimp only at h
        split at h
        · cases h
          rfl
        · cases h
  | .bytes => stops_bytes
  | .string => stops_string
  | .vector n k => fun _ => decode_vector_eq_tooLong (decode_eq_tooLong k)
  | .array k => fun _ => decode_array_eq_tooLong (decode_eq_tooLong k)
  | .tuple ks => fun _ => decode_tuple_eq_tooLong (each_eq_tooLong ks)

theorem each_eq_tooLong : ∀ ks : List Kind, ∀ k ∈ ks, k.Stops
  | [], _, mem => nomatch mem
  | k :: ks, k', mem =>
      (List.mem_cons.mp mem).elim (fun same => same ▸ decode_eq_tooLong k) (each_eq_tooLong ks k')

end

/-- A list of values is decoded as a tuple, and stops where the tuple does. -/
theorem decodeAll_eq_tooLong : decodeAll ks data = .error .tooLong ↔ Overlong (.tuple ks) data := by
  rw [← decode_eq_tooLong, decode, decodeAll]
  cases checkHead (32 * headCounts ks) data ks data with
  | error f => simp only [Except.error_bind, Except.error.injEq]
  | ok _ => cases decodeFields data ks data <;> simp only [Except.ok_bind, Except.error_bind,
      Except.error.injEq, reduceCtorEq]

end Kind

end EthBatch.Abi
