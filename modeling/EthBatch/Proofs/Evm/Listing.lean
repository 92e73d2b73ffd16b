import EthBatch.Proofs.Evm.Consistency

/-!
# Assembled code reads as the program

The listing of a program is what it says, instruction by instruction: a label says nothing, and the
push of a label says the offset at which the label stands. Code is read from its start, so every
instruction has to be exactly as long as the first pass counts, and none may be cut by a label.
Then the code of a program reads as its listing. The one way to miss this is a push that is not one
of the 32 that there are: the assembler computes a byte for it, and the byte is another instruction.
-/

namespace EthBatch.Evm

variable {items part before after : List Item} {labels : Labels} {code b rest : Bytes}
variable {name : String}

/-- The instruction that an item of a program states. -/
def Item.instruction? (items : List Item) : Item → Option Instruction
  | .op o => some (.op o)
  | .push value width => (value.value? items).map (.push (pushWidth value width).toNat)
  | _ => none

/-- The instructions of a part of a program. -/
def statedIn (items part : List Item) : List Instruction :=
  part.filterMap (Item.instruction? items)

/-- The instructions of a program. -/
def listing (items : List Item) : List Instruction := statedIn items items

/-! ## Reading on -/

/-- Operand bytes are passed over. -/
theorem disassembleAfter_append (skipped rest : Bytes) :
    disassembleAfter skipped.length (skipped ++ rest) = disassembleAfter 0 rest := by
  induction skipped with
  | nil => rfl
  | cons b skipped ih => exact ih

/-- The bytes of an item read as what it states, whatever follows. -/
theorem disassembleAfter_bytes (placed : Placed labels items) {i : Item}
    (h : i.bytes labels = .ok b) (regular : i.isRegular = true) :
    disassembleAfter 0 (b ++ rest) =
      (i.instruction? items).toList ++ disassembleAfter 0 rest := by
  cases i with
  | label name =>
      cases h
      rfl
  | sizeless cause => cases h
  | codeless cause => cases h
  | op o =>
      cases h
      rw [List.singleton_append, disassembleAfter, Instruction.ofBytes_byte, o.ofByte?_byte.2]
      rfl
  | push value width =>
      simp only [Item.isRegular, Bool.and_eq_true, decide_eq_true_eq] at regular
      obtain ⟨n, resolved, pushed⟩ := Except.bind_eq_ok.mp h
      obtain ⟨k, m, wide, rfl, room, rfl⟩ := pushBytes_eq_ok regular.1 regular.2 pushed
      rw [wide] at regular
      have skipped : disassembleAfter k (Bytes.ofNat k m ++ rest) = disassembleAfter 0 rest := by
        have operand := disassembleAfter_append (Bytes.ofNat k m) rest
        rwa [Bytes.length_ofNat] at operand
      rw [List.cons_append, disassembleAfter,
        Instruction.ofBytes_push (by omega) (by omega) room, operandSize_push (by omega) (by omega),
        skipped, Item.instruction?, placed.resolve.mp resolved, wide]
      rfl

/-- The bytes of a part of a program read as what the part states. -/
theorem disassembleAfter_emit (placed : Placed labels items) (h : emit labels part = .ok b)
    (regular : ∀ i ∈ part, i.isRegular = true) (rest : Bytes) :
    disassembleAfter 0 (b ++ rest) = statedIn items part ++ disassembleAfter 0 rest := by
  induction part generalizing b with
  | nil =>
      cases h
      rfl
  | cons i part ih =>
      obtain ⟨here, regular⟩ := List.forall_mem_cons.mp regular
      obtain ⟨first, others, hfirst, hothers, rfl⟩ := emit_cons_eq_ok.mp h
      rw [List.append_assoc, disassembleAfter_bytes placed hfirst here, ih hothers regular,
        ← List.append_assoc]
      congr 1
      rw [statedIn, statedIn, List.filterMap_cons]
      cases i.instruction? items <;> rfl

theorem disassemble_emit (placed : Placed labels items) (h : emit labels part = .ok b)
    (regular : ∀ i ∈ part, i.isRegular = true) : disassemble b = statedIn items part := by
  have read := disassembleAfter_emit placed h regular []
  rwa [List.append_nil, disassembleAfter, List.append_nil] at read

/-- An instruction begins behind the bytes of a part of a program, if anything does. -/
theorem mem_startsAfter_emit (h : emit labels part = .ok b)
    (regular : ∀ i ∈ part, i.isRegular = true) (some : rest ≠ []) (pc : Nat) :
    pc + b.length ∈ startsAfter 0 pc (b ++ rest) := by
  induction part generalizing b pc with
  | nil =>
      cases h
      cases rest with
      | nil => exact absurd rfl some
      | cons x rest => exact List.mem_cons_self
  | cons i part ih =>
      obtain ⟨here, regular⟩ := List.forall_mem_cons.mp regular
      obtain ⟨first, others, hfirst, hothers, rfl⟩ := emit_cons_eq_ok.mp h
      rw [List.append_assoc, List.length_append, ← Nat.add_assoc]
      exact Item.startsAfter_bytes hfirst here (ih hothers regular _)

/-! ## Programs -/

/-- Code is divided at an offset as a program is by a label: what comes before reads as the items
before the label, and what comes behind as those behind it. An instruction begins at the offset, or
none is left; a jump may lead there if the instruction is a jump target. -/
structure DividedAt (code : Bytes) (items before after : List Item) (offset : Nat) : Prop where
  le : offset ≤ code.length
  front : disassemble (code.take offset) = statedIn items before
  back : disassemble (code.drop offset) = statedIn items after
  boundary : offset ∈ starts code ∨ statedIn items after = [] ∧ offset = code.length
  target : after.head? = some (.op .jumpDest) → isJumpTarget code offset = true

/-- A label followed by a jump target can be jumped to. -/
theorem isJumpTarget_of_codeAt {pc : Nat} (stands : CodeAt code labels pc (.label name :: after))
    (target : after.head? = some (.op .jumpDest)) : isJumpTarget code pc = true := by
  obtain ⟨_, rfl⟩ := List.head?_eq_some_iff.mp target
  obtain ⟨-, ⟨begins, fetched⟩, -⟩ := stands
  have begins : pc ∈ starts code := begins
  have fetched : Instruction.fetch code pc = .op .jumpDest := fetched
  rw [isJumpTarget, fetched, List.contains_iff_mem.mpr begins]
  rfl

/-- Where a label stands, code is divided as the program is. -/
theorem dividedAt_of_assemble (h : assemble items = .ok code)
    (regular : ∀ i ∈ items, i.isRegular = true) (split : items = before ++ .label name :: after) :
    DividedAt code items before after (sizes before) := by
  obtain ⟨labels, laid, emitted, placed⟩ := exists_placed_of_assemble h
  obtain ⟨standing, stands⟩ := codeAt_assemble_append (List.all_eq_true.mpr regular) h []
  rw [List.append_nil, split] at stands
  have stands := stands.append_right
  rw [Nat.zero_add] at stands
  have parts := split ▸ regular
  rw [List.forall_mem_append, List.forall_mem_cons] at parts
  obtain ⟨beforeRegular, -, afterRegular⟩ := parts
  rw [split] at emitted
  obtain ⟨front, last, hfront, hlast, rfl⟩ := emit_append_eq_ok emitted
  obtain ⟨first, back, hfirst, hback, rfl⟩ := emit_cons_eq_ok.mp hlast
  obtain rfl : [] = first := Except.ok.inj hfirst
  rw [List.nil_append] at stands ⊢
  have backReads := disassemble_emit placed hback afterRegular
  have size := length_emit hfront beforeRegular
  rw [← size] at stands ⊢
  refine ⟨by simp, ?_, ?_, ?_, isJumpTarget_of_codeAt stands⟩
  · rw [List.take_left]
    exact disassemble_emit placed hfront beforeRegular
  · rw [List.drop_left]
    exact backReads
  · by_cases none : back = []
    · subst none
      exact .inr ⟨backReads.symm, by rw [List.append_nil]⟩
    · have begins := mem_startsAfter_emit hfront beforeRegular none 0
      rw [Nat.zero_add] at begins
      exact .inl begins

/-- A program whose pushes are of widths from one to 32, and which is consistent otherwise, has
code. The code reads as the program: it has the same instructions in the same order, a push of a
label has the offset of the label, and the code is divided there as the program is. -/
theorem reads_back (p : Program) (consistent : Consistent p.flatten)
    (regular : ∀ i ∈ p.flatten, i.isRegular = true) :
    ∃ code, assemble p.flatten = .ok code ∧ disassemble code = listing p.flatten ∧
      ∀ before name after, p.flatten = before ++ .label name :: after →
        ∃ offset, offset? name p.flatten = some offset ∧
          DividedAt code p.flatten before after offset := by
  obtain ⟨code, h⟩ : ∃ code, assemble p.flatten = .ok code :=
    assemble_isOk.mpr ⟨consistent, fun i mem => i.hasByte_of_isRegular (regular i mem)⟩
  obtain ⟨labels, _, emitted, placed⟩ := exists_placed_of_assemble h
  refine ⟨code, h, disassemble_emit placed emitted regular, ?_⟩
  intro before name after split
  exact ⟨sizes before, offset?_of_split consistent.nodup split,
    dividedAt_of_assemble h regular split⟩

/-- A loop that counts down from a wide number, inside blocks: it refers to a label before and to
one behind, with a stated width and without. -/
def countdown : Program :=
  .block [.item (.push (.number 0x1ff) none),
    .block [.item (.label "again"), .item (.op .jumpDest), .item (.push (.number 1) (some 2)),
      .item (.named "SWAP1"), .item (.op .sub), .item (.named "DUP1")],
    .item (.push (.label "again") none), .item (.op .jumpi),
    .item (.push (.label "end") (some 1)), .item (.label "end")]

/-- The code of the countdown reads as it is written, with labels at 3 and 16, and a jump may lead
to the first. -/
theorem reads_back_countdown : ∃ code, assemble countdown.flatten = .ok code ∧
    disassemble code = [.push 2 0x1ff, .op .jumpDest, .push 2 1, .op (.swap 0), .op .sub,
      .op (.dup 0), .push 2 3, .op .jumpi, .push 1 16] ∧ isJumpTarget code 3 = true := by
  obtain ⟨code, assembled, reads, divided⟩ := reads_back countdown (by decide) (by decide)
  obtain ⟨offset, found, divided⟩ := divided [.push (.number 0x1ff) none] "again" _ rfl
  have stands : offset? "again" countdown.flatten = some 3 := by decide
  obtain rfl := Option.some.inj (found.symm.trans stands)
  exact ⟨code, assembled, reads.trans (by decide), divided.target rfl⟩

/-! ## Pushes that are none -/

/-- Is an item a push whose byte is the byte of something else? -/
def Item.isStray : Item → Bool
  | .push value width =>
    pushWidth value width = 0 || 33 ≤ pushWidth value width && pushWidth value width ≤ 160
  | _ => false

theorem Item.not_isStray_of_isRegular (i : Item) (regular : i.isRegular = true) :
    i.isStray = false := by
  cases i with
  | push value width =>
      simp only [isRegular, isStray, Bool.and_eq_true, decide_eq_true_eq, Bool.or_eq_false_iff,
        Bool.and_eq_false_iff, decide_eq_false_iff_not] at regular ⊢
      omega
  | _ => rfl

theorem width_of_ofBytes {x : UInt8} {k n : Nat} (h : .push k n = Instruction.ofBytes x rest) :
    1 ≤ k ∧ k ≤ 32 := by
  have most : operandSize x ≤ 32 := by
    unfold operandSize
    split
    · next inside =>
      rw [Bool.and_eq_true, decide_eq_true_eq, decide_eq_true_eq] at inside
      omega
    · exact Nat.zero_le _
  rw [Instruction.ofBytes] at h
  split at h
  · split at h <;> cases h
  · next some =>
    cases h
    exact ⟨Nat.pos_of_ne_zero some, most⟩

/-- Only pushes of one to 32 bytes are read from code. -/
theorem width_of_mem_disassembleAfter {skipped k n : Nat}
    (h : .push k n ∈ disassembleAfter skipped code) : 1 ≤ k ∧ k ≤ 32 := by
  induction code generalizing skipped with
  | nil => cases skipped <;> cases h
  | cons x code ih =>
      cases skipped with
      | succ skipped => exact ih h
      | zero =>
          rcases List.mem_cons.mp h with here | later
          · exact width_of_ofBytes here
          · exact ih later

/-- Code that reads as a program has no other pushes. -/
theorem regular_of_reads (consistent : Consistent items) (reads : disassemble code = listing items)
    {i : Item} (mem : i ∈ items) : i.isRegular = true := by
  have fits := consistent.fits i mem
  cases fits with
  | op o => rfl
  | label name => rfl
  | push wide found room =>
      have stated : .push _ _ ∈ listing items :=
        List.mem_filterMap.mpr ⟨_, mem, by rw [Item.instruction?, found]; rfl⟩
      have width := width_of_mem_disassembleAfter (reads ▸ stated)
      rw [wide, Int.toNat_natCast] at width
      simp only [Item.isRegular, wide, Bool.and_eq_true, decide_eq_true_eq]
      omega

/-- An item whose push has a byte is regular or stray. -/
theorem Item.hasByte_iff_of_fits {i : Item} (fits : i.Fits items) :
    i.hasByte = true ↔ i.isRegular = true ∨ i.isStray = true := by
  cases fits with
  | op o => exact iff_of_true rfl (.inl rfl)
  | label name => exact iff_of_true rfl (.inl rfl)
  | push wide found room =>
      simp only [hasByte, isRegular, isStray, wide, Bool.and_eq_true, Bool.or_eq_true,
        decide_eq_true_eq]
      omega

/-- Code comes of the consistent programs whose pushes are regular or stray, and of no others. If no
push is stray, these are the consistent programs whose pushes are all of one to 32 bytes. Code reads
as the program if and only if there was no stray push: otherwise the machine finds another
instruction in its place. -/
theorem assembles_unless_stray (p : Program) :
    (∀ s, (Item.named s).Fits p.flatten ↔ ∃ o : Opcode, s = o.name) ∧
    ((∃ code, assemble p.flatten = .ok code) ↔
      Consistent p.flatten ∧ ∀ i ∈ p.flatten, i.isRegular = true ∨ i.isStray = true) ∧
    ((∀ i ∈ p.flatten, i.isStray = false) → ((∃ code, assemble p.flatten = .ok code) ↔
      Consistent p.flatten ∧ ∀ i ∈ p.flatten, i.isRegular = true)) ∧
    ∀ code, assemble p.flatten = .ok code →
      (disassemble code = listing p.flatten ↔ ∀ i ∈ p.flatten, i.isStray = false) := by
  have exact : (∃ code, assemble p.flatten = .ok code) ↔
      Consistent p.flatten ∧ ∀ i ∈ p.flatten, i.isRegular = true ∨ i.isStray = true := by
    rw [assemble_isOk]
    exact and_congr_right fun consistent => forall₂_congr fun i mem =>
      Item.hasByte_iff_of_fits (consistent.fits i mem)
  refine ⟨fun s => Item.named_fits_iff, exact, ?_, ?_⟩
  · intro tame
    rw [exact]
    refine and_congr_right fun _ => forall₂_congr fun i mem => ?_
    simp [tame i mem]
  · intro code h
    obtain ⟨consistent, either⟩ := exact.mp ⟨code, h⟩
    constructor
    · intro reads i mem
      exact i.not_isStray_of_isRegular (regular_of_reads consistent reads mem)
    · intro tame
      obtain ⟨labels, _, emitted, placed⟩ := exists_placed_of_assemble h
      refine disassemble_emit placed emitted fun i mem => ?_
      exact (either i mem).resolve_right (by simp [tame i mem])

/-- The push of a number of 33 bytes. -/
def oversized : Program := .item (.push (.number (2 ^ 256)) none)

/-- It assembles, to a duplication of the top of the stack with other bytes behind. -/
theorem exists_code_of_oversized : ∃ code, assemble oversized.flatten = .ok code ∧
    code.head? = some (Opcode.dup 0).byte ∧ disassemble code ≠ listing oversized.flatten ∧
    ¬ ∀ i ∈ oversized.flatten, i.isRegular = true :=
  ⟨0x80 :: 0x01 :: Bytes.zeros 32, by rfl, rfl, by decide, by decide⟩

/-- A jump to a label that stands nowhere. -/
def astray : Program := .block [.item (.push (.label "nowhere") none), .item (.op .jump)]

/-- The countdown assembles, for it is consistent and none of its pushes is stray. The jump to
nowhere does not. -/
theorem assembles_unless_stray_countdown : (∃ code, assemble countdown.flatten = .ok code) ∧
    ¬ ∃ code, assemble astray.flatten = .ok code := by
  obtain ⟨-, -, tame, -⟩ := assembles_unless_stray countdown
  obtain ⟨-, -, lost, -⟩ := assembles_unless_stray astray
  refine ⟨(tame (by decide)).mpr ⟨by decide, by decide⟩, fun some => ?_⟩
  exact absurd ((lost (by decide)).mp some).1 (by decide)

end EthBatch.Evm
