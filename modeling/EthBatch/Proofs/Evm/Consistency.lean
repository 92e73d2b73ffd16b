import EthBatch.Proofs.Evm.Assembly

/-!
# Which programs assemble

A program is consistent if no label stands in it twice, every label that is pushed stands in it
somewhere, every item has code, and every push has room for its number. Nothing else can go wrong
in the two passes of the assembler, but for a push so wide that there is no byte for it.
-/

namespace EthBatch.Evm

variable {items : List Item} {labels : Labels} {name : String}

/-- The name of a label. -/
def Item.label? : Item → Option String
  | .label name => some name
  | _ => none

/-- The names of the labels in a program. -/
def labelNames (items : List Item) : List String := items.filterMap Item.label?

/-- The number of bytes before the label of a name, if there is one. -/
def offset? (name : String) : List Item → Option Nat
  | [] => none
  | i :: items => if i = .label name then some 0 else (offset? name items).map (i.size.toNat + ·)

/-- What a push in a program leaves on the stack: a number, or the offset of a label. -/
def Operand.value? (items : List Item) : Operand → Option Nat
  | .number n => n.toNat?
  | .label name => offset? name items

/-- An item of a program has code. A push needs a value that is not negative and bytes enough to
hold it. -/
inductive Item.Fits (items : List Item) : Item → Prop
  | op (o : Opcode) : Fits items (.op o)
  | label (name : String) : Fits items (.label name)
  | push {value : Operand} {width : Option Int} {k n : Nat} (wide : pushWidth value width = k)
      (found : value.value? items = some n) (room : n < Bytes.capacity k) :
      Fits items (.push value width)

/-- No label stands twice, and every item has code. -/
structure Consistent (items : List Item) : Prop where
  nodup : (labelNames items).Nodup
  fits : ∀ i ∈ items, i.Fits items

theorem Item.fits_push_iff {value : Operand} {width : Option Int} :
    (push value width).Fits items ↔ 0 ≤ pushWidth value width ∧
      ∃ n, value.value? items = some n ∧ n < Bytes.capacity (pushWidth value width).toNat := by
  constructor
  · rintro (_ | _ | ⟨wide, found, room⟩)
    rw [wide]
    exact ⟨Int.natCast_nonneg _, _, found, room⟩
  · rintro ⟨nonneg, n, found, room⟩
    exact .push (Int.toNat_of_nonneg nonneg).symm found room

instance (items : List Item) : (i : Item) → Decidable (i.Fits items)
  | .op o => .isTrue (.op o)
  | .label name => .isTrue (.label name)
  | .sizeless _ => .isFalse nofun
  | .codeless _ => .isFalse nofun
  | .push value width =>
    match found : value.value? items with
    | none => .isFalse fun fits => by simpa [found] using Item.fits_push_iff.mp fits
    | some n =>
      decidable_of_iff (0 ≤ Item.pushWidth value width ∧
        n < Bytes.capacity (Item.pushWidth value width).toNat) (by simp [Item.fits_push_iff, found])

instance (items : List Item) : Decidable (Consistent items) :=
  decidable_of_iff ((labelNames items).Nodup ∧ ∀ i ∈ items, i.Fits items)
    ⟨fun h => ⟨h.1, h.2⟩, fun h => ⟨h.nodup, h.fits⟩⟩

/-- Does the first pass accept an item? -/
def Item.isSized : Item → Bool
  | .sizeless _ => false
  | _ => true

/-- Is there a byte for the width of a push? The byte that would stand for a push of `k` bytes is
`0x5f + k`, whether or not it is the byte of a push. -/
def Item.hasByte : Item → Bool
  | .push value width => pushWidth value width ≤ 160
  | _ => true

theorem Item.hasByte_of_isRegular (i : Item) (regular : i.isRegular = true) :
    i.hasByte = true := by
  cases i with
  | push value width =>
      simp only [isRegular, Bool.and_eq_true, decide_eq_true_eq] at regular
      rw [hasByte, decide_eq_true_eq]
      omega
  | _ => rfl

/-! ## Names -/

theorem Opcode.mem_all (o : Opcode) : o ∈ all := by
  cases o with
  | dup n =>
      revert n
      decide
  | swap n =>
      revert n
      decide
  | _ => decide

theorem Opcode.ofName?_name (o : Opcode) : ofName? o.name = some o := by
  have all : ∀ o ∈ all, ofName? o.name = some o := by decide +kernel
  exact all o o.mem_all

/-- A name has code if an instruction has the name. -/
theorem Item.named_fits_iff {s : String} : (named s).Fits items ↔ ∃ o : Opcode, s = o.name := by
  rw [named]
  split
  · next o found =>
    have same := List.find?_some found
    exact iff_of_true (.op o) ⟨o, (eq_of_beq same).symm⟩
  · next unknown =>
    refine iff_of_false nofun ?_
    rintro ⟨o, rfl⟩
    rw [o.ofName?_name] at unknown
    cases unknown

/-! ## The first pass -/

theorem offset?_append {before after : List Item} (fresh : name ∉ labelNames before) :
    offset? name (before ++ after) = (offset? name after).map (sizes before + ·) := by
  induction before with
  | nil => simp
  | cons i before ih =>
      have other : i ≠ .label name := by
        rintro rfl
        exact fresh List.mem_cons_self
      have fresh : name ∉ labelNames before := fun mem =>
        fresh (List.Sublist.mem mem ((List.sublist_cons_self i before).filterMap _))
      rw [List.cons_append, offset?, if_neg other, ih fresh, Option.map_map, sizes_cons]
      exact congrArg (Option.map · _) (funext fun n => (Nat.add_assoc _ _ n).symm)

/-- A label stands behind the items before it. -/
theorem offset?_of_split {before after : List Item} (nodup : (labelNames items).Nodup)
    (split : items = before ++ .label name :: after) :
    offset? name items = some (sizes before) := by
  subst split
  have fresh : name ∉ labelNames before := by
    rw [labelNames, List.filterMap_append, List.nodup_append] at nodup
    exact fun mem => nodup.2.2 _ mem _ List.mem_cons_self rfl
  rw [offset?_append fresh, offset?, if_pos rfl]
  rfl

/-- The first pass finds the offsets of labels. -/
theorem lookup_of_layout {pc : Int} {done : Labels} (sized : ∀ i ∈ items, 0 ≤ i.size)
    (h : layout items pc done = .ok labels) (name : String) : labels.lookup name =
      (done.lookup name).or ((offset? name items).map fun n : Nat => pc + (n : Int)) := by
  induction items generalizing pc done with
  | nil =>
      cases h
      simp [offset?]
  | cons i items ih =>
      obtain ⟨size, rest⟩ := List.forall_mem_cons.mp sized
      -- The offset of a label further on counts the item that is passed.
      have behind : (offset? name items).map (fun n : Nat => pc + i.size + (n : Int)) =
          ((offset? name items).map (i.size.toNat + ·)).map fun n : Nat => pc + (n : Int) := by
        rw [Option.map_map]
        apply congrArg (Option.map · _)
        funext n
        simp only [Function.comp_apply]
        omega
      cases i with
      | label other =>
          rw [layout] at h
          split at h
          · cases h
          · rw [ih rest h, List.lookup_append, offset?]
            by_cases same : other = name
            · subst same
              simp
            · have miss : (name == other) = false := by simpa using Ne.symm same
              rw [Item.size, Int.add_zero] at behind
              rw [if_neg (by simpa using same), behind, List.lookup_cons, miss, List.lookup_nil,
                Option.or_none]
              rfl
      | sizeless cause => cases h
      | op o => rw [ih rest h, offset?, if_neg (by simp), behind]
      | push value width => rw [ih rest h, offset?, if_neg (by simp), behind]
      | codeless cause => rw [ih rest h, offset?, if_neg (by simp), behind]

/-- The first pass succeeds if no label is met twice and every item has a size. -/
theorem layout_isOk {pc : Int} {done : Labels} :
    (∃ labels, layout items pc done = .ok labels) ↔ (labelNames items).Nodup ∧
      (∀ name ∈ labelNames items, done.lookup name = none) ∧ ∀ i ∈ items, i.isSized = true := by
  induction items generalizing pc done with
  | nil => simp [layout, labelNames]
  | cons i items ih =>
      have others {i : Item} (sized : i.isSized = true) :
          (∀ j ∈ i :: items, j.isSized = true) ↔ ∀ j ∈ items, j.isSized = true := by
        rw [List.forall_mem_cons, and_iff_right sized]
      cases i with
      | label name =>
          have names : labelNames (.label name :: items) = name :: labelNames items := rfl
          rw [layout, names, List.nodup_cons, List.forall_mem_cons, others rfl]
          cases met : done.lookup name with
          | some n => simp
          | none =>
              have entry (other : String) : (done ++ [(name, pc)]).lookup other = none ↔
                  done.lookup other = none ∧ other ≠ name := by
                rw [List.lookup_append, Option.or_eq_none_iff]
                by_cases same : other = name
                · simp [same]
                · have miss : (other == name) = false := by simpa using same
                  simp [List.lookup_cons, miss, same]
              simp only [Option.isSome_none, Bool.false_eq_true, if_false, ih, entry, true_and]
              constructor
              · rintro ⟨nodup, fresh, sized⟩
                exact ⟨⟨fun mem => (fresh name mem).2 rfl, nodup⟩,
                  fun other mem => (fresh other mem).1, sized⟩
              · rintro ⟨⟨unmet, nodup⟩, fresh, sized⟩
                refine ⟨nodup, fun other mem => ⟨fresh other mem, ?_⟩, sized⟩
                rintro rfl
                exact unmet mem
      | sizeless cause => simp [layout, Item.isSized]
      | op o =>
          rw [others rfl]
          exact ih
      | push value width =>
          rw [others rfl]
          exact ih
      | codeless cause =>
          rw [others rfl]
          exact ih

/-! ## The second pass -/

/-- Bytes are emitted item by item. -/
theorem emit_cons_eq_ok {i : Item} {b : Bytes} : emit labels (i :: items) = .ok b ↔
    ∃ first others, i.bytes labels = .ok first ∧ emit labels items = .ok others ∧
      b = first ++ others := by
  rw [emit]
  cases i.bytes labels with
  | error cause => simp
  | ok first =>
      cases emit labels items with
      | error cause => simp
      | ok others => simp [eq_comm]

theorem emit_isOk :
    (∃ b, emit labels items = .ok b) ↔ ∀ i ∈ items, ∃ b, i.bytes labels = .ok b := by
  induction items with
  | nil => simp [emit]
  | cons i items ih =>
      rw [List.forall_mem_cons, ← ih]
      constructor
      · rintro ⟨b, h⟩
        obtain ⟨first, others, hfirst, hothers, -⟩ := emit_cons_eq_ok.mp h
        exact ⟨⟨first, hfirst⟩, others, hothers⟩
      · rintro ⟨⟨first, hfirst⟩, others, hothers⟩
        exact ⟨_, emit_cons_eq_ok.mpr ⟨first, others, hfirst, hothers, rfl⟩⟩

/-- Code is emitted part by part. -/
theorem emit_append_eq_ok {before after : List Item} {code : Bytes}
    (h : emit labels (before ++ after) = .ok code) :
    ∃ front back, emit labels before = .ok front ∧ emit labels after = .ok back ∧
      code = front ++ back := by
  induction before generalizing code with
  | nil => exact ⟨[], code, rfl, h, rfl⟩
  | cons i before ih =>
      obtain ⟨first, others, hfirst, hothers, rfl⟩ := emit_cons_eq_ok.mp h
      obtain ⟨front, back, hfront, hback, rfl⟩ := ih hothers
      exact ⟨first ++ front, back, emit_cons_eq_ok.mpr ⟨first, front, hfirst, hfront, rfl⟩, hback,
        (List.append_assoc _ _ _).symm⟩

/-- The code of a program is as long as the first pass counts. -/
theorem length_emit {b : Bytes} (h : emit labels items = .ok b)
    (regular : ∀ i ∈ items, i.isRegular = true) : b.length = sizes items := by
  induction items generalizing b with
  | nil =>
      cases h
      rfl
  | cons i items ih =>
      obtain ⟨here, regular⟩ := List.forall_mem_cons.mp regular
      obtain ⟨first, others, hfirst, hothers, rfl⟩ := emit_cons_eq_ok.mp h
      have size := Item.length_bytes hfirst here
      rw [List.length_append, ih hothers regular, sizes_cons]
      omega

/-- A push has bytes if its opcode is a byte and its number fits behind it. -/
theorem pushBytes_isOk {n width : Int} : (∃ b, pushBytes n width = .ok b) ↔
    ∃ k value : Nat, width = k ∧ n = value ∧ k ≤ 160 ∧ value < Bytes.capacity k := by
  rw [pushBytes]
  constructor
  · rintro ⟨b, h⟩
    split at h
    · cases h
    · next wide =>
      split at h
      · cases h
      · next fits =>
        simp only [Bool.or_eq_true, decide_eq_true_eq, not_or, Int.not_lt, Nat.not_le] at wide fits
        exact ⟨width.toNat, n.toNat, by omega, by omega, by omega, fits.2⟩
  · rintro ⟨k, value, rfl, rfl, wide, fits⟩
    rw [if_neg (by simp only [Bool.or_eq_true, decide_eq_true_eq]; omega), if_neg]
    · exact ⟨_, rfl⟩
    · simpa using fits

/-- The labels are where the program has them. -/
def Placed (labels : Labels) (items : List Item) : Prop :=
  ∀ name, labels.lookup name = (offset? name items).map fun n : Nat => (n : Int)

theorem placed_of_layout (sized : ∀ i ∈ items, 0 ≤ i.size)
    (h : layout items 0 [] = .ok labels) : Placed labels items := by
  intro name
  simpa using lookup_of_layout sized h name

/-- A push resolves to the value that it has in the program. -/
theorem Placed.resolve (placed : Placed labels items) {value : Operand} {n : Nat} :
    value.resolve labels = .ok n ↔ value.value? items = some n := by
  cases value with
  | number m =>
      rw [Operand.resolve, Operand.value?, Except.ok.injEq]
      exact Int.mem_toNat?.symm
  | label name =>
      rw [Operand.resolve, Operand.value?, placed name]
      cases offset? name items <;> simp

/-- An item has bytes if it has code and there is a byte for it. -/
theorem Placed.bytes_isOk (placed : Placed labels items) {i : Item} :
    (∃ b, i.bytes labels = .ok b) ↔ i.Fits items ∧ i.hasByte = true := by
  cases i with
  | op o => exact iff_of_true ⟨_, rfl⟩ ⟨.op o, rfl⟩
  | label name => exact iff_of_true ⟨_, rfl⟩ ⟨.label name, rfl⟩
  | sizeless cause => exact iff_of_false nofun nofun
  | codeless cause => exact iff_of_false nofun nofun
  | push value width =>
      constructor
      · rintro ⟨b, h⟩
        obtain ⟨n, resolved, pushed⟩ := Except.bind_eq_ok.mp h
        obtain ⟨k, value, wide, rfl, most, room⟩ := pushBytes_isOk.mp ⟨b, pushed⟩
        refine ⟨.push wide (placed.resolve.mp resolved) room, ?_⟩
        rw [Item.hasByte, wide, decide_eq_true_eq]
        omega
      · rintro ⟨fits, most⟩
        cases fits with
        | push wide found room =>
            rw [Item.hasByte, wide, decide_eq_true_eq] at most
            obtain ⟨b, pushed⟩ := pushBytes_isOk.mpr ⟨_, _, wide, rfl, by omega, room⟩
            exact ⟨b, Except.bind_eq_ok.mpr ⟨_, placed.resolve.mpr found, pushed⟩⟩

theorem Item.Fits.isSized {i : Item} (fits : i.Fits items) : i.isSized = true := by
  cases fits <;> rfl

theorem Item.Fits.size_nonneg {i : Item} (fits : i.Fits items) : 0 ≤ i.size := by
  cases fits with
  | op o => exact Int.one_nonneg
  | label name => exact Int.le_refl 0
  | push wide found room =>
      rw [Item.size, wide]
      omega

/-- An item with bytes is not of negative size, wherever the labels are. -/
theorem Item.size_nonneg_of_bytes {i : Item} {b : Bytes} (h : i.bytes labels = .ok b) :
    0 ≤ i.size := by
  cases i with
  | push value width =>
      obtain ⟨n, _, pushed⟩ := Except.bind_eq_ok.mp h
      obtain ⟨k, _, wide, _⟩ := pushBytes_isOk.mp ⟨b, pushed⟩
      rw [Item.size, wide]
      omega
  | label name => exact Int.le_refl 0
  | _ => exact Int.one_nonneg

/-- What has assembled has its labels where the program has them. -/
theorem exists_placed_of_assemble {code : Bytes} (h : assemble items = .ok code) :
    ∃ labels, layout items 0 [] = .ok labels ∧ emit labels items = .ok code ∧
      Placed labels items := by
  obtain ⟨labels, laid, emitted⟩ := Except.bind_eq_ok.mp h
  have sized (i) (mem : i ∈ items) : 0 ≤ i.size := by
    obtain ⟨b, here⟩ := emit_isOk.mp ⟨code, emitted⟩ i mem
    exact i.size_nonneg_of_bytes here
  exact ⟨labels, laid, emitted, placed_of_layout sized laid⟩

/-- The programs that assemble are the consistent ones without a push that has no byte. -/
theorem assemble_isOk : (∃ code, assemble items = .ok code) ↔
    Consistent items ∧ ∀ i ∈ items, i.hasByte = true := by
  constructor
  · rintro ⟨code, h⟩
    obtain ⟨labels, laid, emitted, placed⟩ := exists_placed_of_assemble h
    have bytes (i) (mem : i ∈ items) : i.Fits items ∧ i.hasByte = true :=
      placed.bytes_isOk.mp (emit_isOk.mp ⟨code, emitted⟩ i mem)
    exact ⟨⟨(layout_isOk.mp ⟨labels, laid⟩).1, fun i mem => (bytes i mem).1⟩,
      fun i mem => (bytes i mem).2⟩
  · rintro ⟨consistent, narrow⟩
    obtain ⟨labels, laid⟩ : ∃ labels, layout items 0 [] = .ok labels :=
      layout_isOk.mpr
        ⟨consistent.nodup, fun _ _ => rfl, fun i mem => (consistent.fits i mem).isSized⟩
    have placed := placed_of_layout (fun i mem => (consistent.fits i mem).size_nonneg) laid
    obtain ⟨code, emitted⟩ := emit_isOk.mpr fun i mem =>
      placed.bytes_isOk.mpr ⟨consistent.fits i mem, narrow i mem⟩
    exact ⟨code, Except.bind_eq_ok.mpr ⟨labels, laid, emitted⟩⟩

end EthBatch.Evm
