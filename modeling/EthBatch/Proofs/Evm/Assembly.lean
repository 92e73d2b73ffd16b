import EthBatch.Evm.Disassembly
import EthBatch.Evm.Program
import EthBatch.Proofs.Except
import EthBatch.Proofs.Bytes

/-!
# What stands in assembled code

The instructions of a program are found again at the offsets that the first pass of the
assembler counts, and a label has the offset at which it stands. A push must have between one
and 32 bytes for that: there is no other.
-/

namespace EthBatch.Evm

variable {code : Bytes} {labels : Labels} {pc : Nat} {items : List Item}

/-- Is an item a push of a width that exists, or no push? -/
def Item.isRegular : Item → Bool
  | .push value width => 1 ≤ pushWidth value width && pushWidth value width ≤ 32
  | _ => true

/-- The number of bytes of a program. -/
def sizes (items : List Item) : Nat := (items.map fun i => i.size.toNat).sum

@[simp] theorem sizes_nil : sizes [] = 0 := rfl

@[simp] theorem sizes_cons (i : Item) (items : List Item) :
    sizes (i :: items) = i.size.toNat + sizes items := rfl

theorem sizes_append (first second : List Item) :
    sizes (first ++ second) = sizes first + sizes second := by
  simp [sizes]

/-- An item stands in code at an offset. -/
def Item.IsAt (code : Bytes) (labels : Labels) (pc : Nat) : Item → Prop
  | .op o => pc ∈ starts code ∧ Instruction.fetch code pc = .op o
  | .push value width => ∃ w n : Nat, pushWidth value width = w ∧ value.resolve labels = .ok n ∧
      Instruction.fetch code pc = .push w n
  | .label name => labels.lookup name = some (pc : Int)
  | .sizeless _ | .codeless _ => False

/-- Items stand in code one after the other, from an offset on. -/
def CodeAt (code : Bytes) (labels : Labels) : (pc : Nat) → List Item → Prop
  | _, [] => True
  | pc, i :: items => i.IsAt code labels pc ∧ CodeAt code labels (pc + i.size.toNat) items

namespace CodeAt

theorem append_iff {first second : List Item} :
    CodeAt code labels pc (first ++ second) ↔
      CodeAt code labels pc first ∧ CodeAt code labels (pc + sizes first) second := by
  induction first generalizing pc with
  | nil => simp [CodeAt]
  | cons i first ih =>
      rw [List.cons_append, CodeAt, CodeAt, ih, and_assoc, sizes_cons, Nat.add_assoc]

theorem append_left {first second : List Item} (h : CodeAt code labels pc (first ++ second)) :
    CodeAt code labels pc first :=
  (append_iff.mp h).1

theorem append_right {first second : List Item} (h : CodeAt code labels pc (first ++ second)) :
    CodeAt code labels (pc + sizes first) second :=
  (append_iff.mp h).2

end CodeAt

/-! ## Reading instructions -/

theorem Opcode.ofByte?_byte (o : Opcode) :
    Opcode.ofByte? o.byte = some o ∧ operandSize o.byte = 0 := by
  cases o with
  | dup n =>
      revert n
      decide
  | swap n =>
      revert n
      decide
  | _ => decide

theorem Instruction.ofBytes_byte (o : Opcode) (rest : Bytes) : ofBytes o.byte rest = .op o := by
  obtain ⟨found, plain⟩ := o.ofByte?_byte
  rw [ofBytes, plain]
  simp only [found]

theorem operandSize_push {width : Nat} (some : 1 ≤ width) (most : width ≤ 32) :
    operandSize (UInt8.ofNat (0x5f + width)) = width := by
  have byte : (UInt8.ofNat (0x5f + width)).toNat = 0x5f + width := by
    rw [UInt8.toNat_ofNat']
    omega
  rw [operandSize, byte, if_pos (by simp only [Bool.and_eq_true, decide_eq_true_eq]; omega)]
  omega

theorem Instruction.ofBytes_push {width n : Nat} (some : 1 ≤ width) (most : width ≤ 32)
    (fits : n < Bytes.capacity width) (rest : Bytes) :
    ofBytes (UInt8.ofNat (0x5f + width)) (Bytes.ofNat width n ++ rest) = .push width n := by
  obtain ⟨k, rfl⟩ := Nat.exists_eq_add_of_le' some
  have operand : (Bytes.ofNat (k + 1) n ++ rest).take (k + 1) = Bytes.ofNat (k + 1) n :=
    List.take_left' (Bytes.length_ofNat _ _)
  rw [ofBytes, operandSize_push some most]
  simp only [operand, Bytes.length_ofNat, Nat.sub_self, Bytes.zeros, List.replicate_zero,
    List.append_nil, Bytes.toNat_ofNat_of_lt fits]

theorem Instruction.fetch_append {before rest : Bytes} {b : UInt8} :
    fetch (before ++ (b :: rest)) before.length = ofBytes b rest := by
  rw [fetch, List.drop_left]

/-- Operand bytes begin no instruction. -/
theorem startsAfter_append {skipped rest : Bytes} :
    startsAfter skipped.length pc (skipped ++ rest) =
      startsAfter 0 (pc + skipped.length) rest := by
  induction skipped generalizing pc with
  | nil => rfl
  | cons b skipped ih =>
      rw [List.cons_append, List.length_cons, startsAfter, ih, Nat.add_assoc, Nat.add_comm 1]

/-! ## Labels -/

theorem lookup_append_of_some {name : String} {n : Int} {more : Labels}
    (h : labels.lookup name = some n) : (labels ++ more).lookup name = some n := by
  rw [List.lookup_append, h, Option.some_or]

/-- The first pass goes on with the labels that it has. -/
theorem exists_of_layout {pc : Int} {done : Labels} (h : layout items pc done = .ok labels) :
    ∃ more, labels = done ++ more := by
  induction items generalizing pc done with
  | nil =>
      cases h
      exact ⟨[], (List.append_nil _).symm⟩
  | cons i items ih =>
      cases i with
      | label name =>
          rw [layout] at h
          split at h
          · cases h
          · obtain ⟨more, rfl⟩ := ih h
            exact ⟨(name, pc) :: more, by simp⟩
      | sizeless cause => cases h
      | op o => exact ih h
      | push value width => exact ih h
      | codeless cause => exact ih h

/-- The first pass counts an item and goes on. A label has the offset at which it is met. -/
theorem layout_cons_eq_ok {i : Item} {pc : Int} {done : Labels}
    (h : layout (i :: items) pc done = .ok labels) :
    (∃ more, layout items (pc + i.size) more = .ok labels) ∧
      ∀ name, i = .label name → labels.lookup name = some pc := by
  cases i with
  | label name =>
      rw [layout] at h
      split at h
      · cases h
      · next fresh =>
        constructor
        · exact ⟨_, by rwa [Item.size, Int.add_zero]⟩
        · intro name' same
          cases same
          obtain ⟨more, rfl⟩ := exists_of_layout h
          apply lookup_append_of_some
          rw [Bool.not_eq_true, Option.isSome_eq_false_iff, Option.isNone_iff_eq_none] at fresh
          rw [List.lookup_append, fresh, Option.none_or, List.lookup_cons_self]
  | sizeless cause => cases h
  | op o => exact ⟨⟨done, h⟩, nofun⟩
  | push value width => exact ⟨⟨done, h⟩, nofun⟩
  | codeless cause => exact ⟨⟨done, h⟩, nofun⟩

/-! ## Items and their bytes -/

/-- The bytes of a push whose width exists. -/
theorem pushBytes_eq_ok {n width : Int} {b : Bytes} (some : 1 ≤ width) (most : width ≤ 32)
    (h : pushBytes n width = .ok b) :
    ∃ k value : Nat, width = k ∧ n = value ∧ value < Bytes.capacity k ∧
      b = UInt8.ofNat (0x5f + k) :: Bytes.ofNat k value := by
  obtain ⟨k, rfl⟩ := Int.eq_ofNat_of_zero_le (Int.le_trans (by decide) some)
  rw [pushBytes, if_neg (by simp only [Bool.or_eq_true, decide_eq_true_eq]; omega)] at h
  split at h
  · cases h
  · next fits =>
    simp only [Bool.or_eq_true, decide_eq_true_eq, not_or, Int.not_lt, Nat.not_le] at fits
    obtain ⟨value, rfl⟩ := Int.eq_ofNat_of_zero_le fits.1
    exact ⟨k, value, rfl, rfl, fits.2, (Except.ok.inj h).symm⟩

variable {i : Item} {b before rest : Bytes}

/-- An item stands where its bytes do. -/
theorem Item.isAt_of_bytes (h : i.bytes labels = .ok b) (regular : i.isRegular = true)
    (reached : startsAfter 0 before.length (b ++ rest) ⊆ starts (before ++ (b ++ rest)))
    (label : ∀ name, i = .label name → labels.lookup name = some (before.length : Int)) :
    i.IsAt (before ++ (b ++ rest)) labels before.length := by
  cases i with
  | label name => exact label name rfl
  | sizeless cause => cases h
  | codeless cause => cases h
  | op o =>
      cases h
      exact ⟨reached List.mem_cons_self,
        Instruction.fetch_append.trans (Instruction.ofBytes_byte o rest)⟩
  | push value width =>
      simp only [isRegular, Bool.and_eq_true, decide_eq_true_eq] at regular
      obtain ⟨n, resolved, pushed⟩ := Except.bind_eq_ok.mp h
      obtain ⟨k, m, wide, rfl, fits, rfl⟩ := pushBytes_eq_ok regular.1 regular.2 pushed
      refine ⟨k, m, wide, resolved, ?_⟩
      rw [wide] at regular
      rw [List.cons_append, Instruction.fetch_append,
        Instruction.ofBytes_push (by omega) (by omega) fits]

theorem Item.length_bytes (h : i.bytes labels = .ok b) (regular : i.isRegular = true) :
    i.size = b.length := by
  cases i with
  | label name =>
      cases h
      rfl
  | sizeless cause => cases h
  | codeless cause => cases h
  | op o =>
      cases h
      rfl
  | push value width =>
      simp only [isRegular, Bool.and_eq_true, decide_eq_true_eq] at regular
      obtain ⟨n, _, pushed⟩ := Except.bind_eq_ok.mp h
      obtain ⟨k, m, wide, _, _, rfl⟩ := pushBytes_eq_ok regular.1 regular.2 pushed
      rw [size, wide, List.length_cons, Bytes.length_ofNat]
      omega

/-- An instruction begins behind an item. -/
theorem Item.startsAfter_bytes (h : i.bytes labels = .ok b) (regular : i.isRegular = true) :
    startsAfter 0 (pc + b.length) rest ⊆ startsAfter 0 pc (b ++ rest) := by
  cases i with
  | label name =>
      cases h
      exact List.Subset.refl _
  | sizeless cause => cases h
  | codeless cause => cases h
  | op o =>
      cases h
      rw [List.singleton_append, startsAfter, o.ofByte?_byte.2]
      exact List.subset_cons_self _ _
  | push value width =>
      simp only [isRegular, Bool.and_eq_true, decide_eq_true_eq] at regular
      obtain ⟨n, _, pushed⟩ := Except.bind_eq_ok.mp h
      obtain ⟨k, m, wide, _, _, rfl⟩ := pushBytes_eq_ok regular.1 regular.2 pushed
      rw [wide] at regular
      have skipped : startsAfter k (pc + 1) (Bytes.ofNat k m ++ rest) =
          startsAfter 0 (pc + (k + 1)) rest := by
        have operand : startsAfter (Bytes.ofNat k m).length (pc + 1) (Bytes.ofNat k m ++ rest) =
            startsAfter 0 (pc + 1 + (Bytes.ofNat k m).length) rest := startsAfter_append
        rwa [Bytes.length_ofNat, Nat.add_assoc, Nat.add_comm 1] at operand
      rw [List.cons_append, startsAfter, operandSize_push (by omega) (by omega), skipped,
        List.length_cons, Bytes.length_ofNat]
      exact List.subset_cons_self _ _

/-! ## Programs -/

/-- Emitted items stand behind what was emitted before them. -/
theorem codeAt_of_emit {done : Labels} (laid : layout items before.length done = .ok labels)
    (emitted : emit labels items = .ok b) (regular : items.all Item.isRegular = true)
    (reached : startsAfter 0 before.length (b ++ rest) ⊆ starts (before ++ (b ++ rest))) :
    CodeAt (before ++ (b ++ rest)) labels before.length items := by
  induction items generalizing before b done with
  | nil => trivial
  | cons i items ih =>
      rw [List.all_cons, Bool.and_eq_true] at regular
      obtain ⟨first, hfirst, emitted⟩ := Except.bind_eq_ok.mp emitted
      obtain ⟨others, hothers, whole⟩ := Except.bind_eq_ok.mp emitted
      obtain rfl := Except.ok.inj whole
      obtain ⟨⟨more, laid⟩, label⟩ := layout_cons_eq_ok laid
      have size := Item.length_bytes hfirst regular.1
      rw [List.append_assoc] at reached ⊢
      refine ⟨Item.isAt_of_bytes hfirst regular.1 reached label, ?_⟩
      have behind : before ++ (first ++ (others ++ rest)) = before ++ first ++ (others ++ rest) :=
        (List.append_assoc _ _ _).symm
      have next : before.length + i.size.toNat = (before ++ first).length := by
        rw [size, Int.toNat_natCast, List.length_append]
      rw [behind] at reached ⊢
      rw [next]
      have laid : layout items (before ++ first).length more = .ok labels := by
        rwa [List.length_append, Int.natCast_add, ← size]
      apply ih laid hothers regular.2
      rw [List.length_append]
      exact List.Subset.trans (Item.startsAfter_bytes hfirst regular.1) reached

/-- The items of a program stand in its code, whatever follows it. -/
theorem codeAt_assemble_append (regular : items.all Item.isRegular = true)
    (h : assemble items = .ok code) (rest : Bytes) :
    ∃ labels, CodeAt (code ++ rest) labels 0 items := by
  obtain ⟨labels, laid, emitted⟩ := Except.bind_eq_ok.mp h
  have whole : CodeAt ([] ++ (code ++ rest)) labels ([] : Bytes).length items := by
    apply codeAt_of_emit laid emitted regular
    exact List.Subset.refl _
  rw [List.nil_append] at whole
  exact ⟨labels, whole⟩

end EthBatch.Evm
