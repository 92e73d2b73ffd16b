import EthBatch.Proofs.Abi.RoundTrip
import EthBatch.Proofs.Abi.Schema

/-!
# Standard types and their names

The standard types are numbers of admissible widths, truth values, addresses, byte strings of fixed
and of any size, strings, tuples that are not empty, and arrays, those of fixed length not being
empty either and their length being one that can be written. Every standard type has a tree, the
text of the tree is its name, and the name stands for the type.
-/

namespace EthBatch.Abi

/-! ## Words -/

theorem isLetter_of_isDigit {c : Char} (h : c.isDigit = true) : isLetter c = false := by
  obtain ⟨low, high⟩ := Char.isDigit_iff_toNat.mp h
  simp only [isLetter, Bool.or_eq_false_iff, Bool.and_eq_false_iff, decide_eq_false_iff_not,
    Char.le_def, UInt32.le_iff_toNat_le]
  change 48 ≤ c.val.toNat at low
  change c.val.toNat ≤ 57 at high
  constructor
  · left
    change ¬ 97 ≤ c.val.toNat
    omega
  · left
    change ¬ 65 ≤ c.val.toNat
    omega

namespace Word

/-- The text of a size. -/
def printSize : Size → List Char
  | .none => []
  | .one n => Number.digits n
  | .two m n => Number.digits m ++ 'x' :: Number.digits n

/-- The text of a word. -/
def print (w : Word) : List Char := w.base.toList ++ printSize w.size

/-- Is the word made of letters and of at most one number? -/
def IsPlain (w : Word) : Prop :=
  w.base.toList ≠ [] ∧ (∀ c ∈ w.base.toList, isLetter c = true) ∧
    (w.size = .none ∨ ∃ n : Nat, (0 < n ∧ Number.isWritable n = true) ∧ w.size = .one n)

variable {w : Word}

theorem IsPlain.isDigit (h : w.IsPlain) {c : Char} (mem : c ∈ printSize w.size) :
    c.isDigit = true := by
  rcases h.2.2 with size | ⟨n, _, size⟩
  · rw [size] at mem
    cases mem
  · rw [size] at mem
    exact Number.isDigit_of_mem_digits mem

/-- A word is split where its number begins. -/
theorem IsPlain.split?_print (h : w.IsPlain) : split? w.print = some w := by
  obtain ⟨letters, number⟩ := span_append (printSize w.size) h.2.1
    fun c first => isLetter_of_isDigit (h.isDigit (List.mem_of_mem_head? first))
  have some : w.base.toList.isEmpty = false := by simpa using h.1
  obtain ⟨base, size⟩ := w
  rw [split?, print, letters, number]
  rcases h.2.2 with rfl | ⟨n, ⟨positive, _⟩, rfl⟩
  · simp [some, printSize]
  · have digits : (Number.digits n).isEmpty = false := by simpa using Number.digits_ne_nil n
    have noMark : ∀ c ∈ Number.digits n, (c ≠ 'x' : Bool) = true := by
      intro c mem
      rw [decide_eq_true_eq]
      rintro rfl
      exact absurd (Number.isDigit_of_mem_digits mem) (by decide)
    obtain ⟨whole, nothing⟩ := span_append [] noMark nofun
    rw [List.append_nil] at whole nothing
    simp only [some, printSize, digits, whole, nothing, size?_digits positive, Bool.false_eq_true,
      if_false, Option.map_some, String.ofList_toList]

theorem IsPlain.isProper (h : w.IsPlain) : TypeText.isProper (.word w.print []) = true := by
  have some : w.print ≠ [] := by
    rw [print]
    exact List.append_ne_nil_of_left_ne_nil h.1 _
  have all : ∀ c ∈ w.print, isWordChar c = true := by
    intro c mem
    rw [print, List.mem_append] at mem
    rw [isWordChar, Bool.or_eq_true, Number.isAsciiDigit_eq_isDigit]
    exact mem.imp (h.2.1 c) h.isDigit
  simpa [TypeText.isProper, some] using all

end Word

/-! ## Trees -/

namespace TypeText

/-- One suffix more. -/
def suffixed : TypeText → Suffix → TypeText
  | .word name ss, s => .word name (ss ++ [s])
  | .tuple items ss, s => .tuple items (ss ++ [s])

theorem print_suffixed (t : TypeText) (s : Suffix) :
    (t.suffixed s).print = t.print ++ s.print := by
  cases t with
  | word name ss => simp [suffixed, print, Suffix.printAll]
  | tuple items ss => simp [suffixed, print, Suffix.printAll]

end TypeText

namespace Kind

/-! ## Numbers in names -/

section

variable {cs ds : List Char} {c : Char} {passed n : Nat}

/-- A character that is no digit ends a run. -/
theorem hasLongNumber_append_cons (other : Number.isAsciiDigit c = false) :
    hasLongNumber passed (cs ++ c :: ds) = (hasLongNumber passed cs || hasLongNumber 0 ds) := by
  induction cs generalizing passed with
  | nil => simp [hasLongNumber, other]
  | cons d cs ih =>
      rw [List.cons_append, hasLongNumber, hasLongNumber, ih, ih]
      split
      · rfl
      · exact (Bool.or_assoc _ _ _).symm

theorem hasLongNumber_of_isDigit (digits : ∀ c ∈ ds, c.isDigit = true) :
    hasLongNumber passed ds = decide (Number.maxDigits < passed + ds.length) := by
  induction ds generalizing passed with
  | nil => rfl
  | cons d ds ih =>
      obtain ⟨first, rest⟩ := List.forall_mem_cons.mp digits
      rw [hasLongNumber, Number.isAsciiDigit_eq_isDigit, if_pos first, ih rest, List.length_cons,
        Nat.add_assoc, Nat.add_comm 1]

/-- The digits of a number are a run of their own behind letters. -/
theorem hasLongNumber_letters_append (letters : ∀ c ∈ cs, isLetter c = true) :
    hasLongNumber 0 (cs ++ ds) = hasLongNumber 0 ds := by
  induction cs with
  | nil => rfl
  | cons c cs ih =>
      obtain ⟨first, rest⟩ := List.forall_mem_cons.mp letters
      have other : Number.isAsciiDigit c = false := by
        rw [Number.isAsciiDigit_eq_isDigit, ← Bool.not_eq_true]
        intro digit
        rw [isLetter_of_isDigit digit] at first
        cases first
      rw [List.cons_append, hasLongNumber, other, ih rest]
      rfl

theorem hasLongNumber_digits : hasLongNumber 0 (Number.digits n) = !Number.isWritable n := by
  rw [hasLongNumber_of_isDigit fun c mem => Number.isDigit_of_mem_digits mem, Nat.zero_add,
    Number.isWritable, Int.natAbs_natCast, ← decide_not]
  exact decide_eq_decide.mpr Nat.not_le.symm

/-- An array suffix adds its own number. -/
theorem hasLongNumber_append_suffix (s : Suffix)
    (short : ∀ n, s = .sized n → Number.isWritable n = true) (cs : List Char) :
    hasLongNumber 0 (cs ++ s.print) = hasLongNumber 0 cs := by
  cases s with
  | unsized =>
      rw [Suffix.print, hasLongNumber_append_cons (by decide)]
      exact Bool.or_false _
  | sized n =>
      rw [Suffix.print, List.cons_append, hasLongNumber_append_cons (by decide),
        hasLongNumber_append_cons (by decide), hasLongNumber_digits, short n rfl]
      simp [hasLongNumber]

end

mutual

/-- The tree of the name of a type. -/
def tree : Kind → TypeText
  | .uint bits => .word (Word.print ⟨"uint", .one bits⟩) []
  | .int bits => .word (Word.print ⟨"int", .one bits⟩) []
  | .bool => .word (Word.print ⟨"bool", .none⟩) []
  | .address => .word (Word.print ⟨"address", .none⟩) []
  | .fixed true bits places => .word (Word.print ⟨"fixed", .two bits places⟩) []
  | .fixed false bits places => .word (Word.print ⟨"ufixed", .two bits places⟩) []
  | .bytesOf n => .word (Word.print ⟨"bytes", .one n⟩) []
  | .bytes => .word (Word.print ⟨"bytes", .none⟩) []
  | .string => .word (Word.print ⟨"string", .none⟩) []
  | .vector n k => (tree k).suffixed (.sized n)
  | .array k => (tree k).suffixed .unsized
  | .tuple ks => .tuple (trees ks) []

def trees : List Kind → List TypeText
  | [] => []
  | k :: ks => tree k :: trees ks

end

mutual

/-- Is the type a standard one? Fixed-point numbers are not. -/
def isStandard : Kind → Bool
  | .uint bits => Word.isWidth bits
  | .int bits => Word.isWidth bits
  | .fixed _ _ _ => false
  | .bytesOf n => 0 < n && n ≤ 32
  | .vector n k => 0 < n && Number.isWritable n && isStandard k
  | .array k => isStandard k
  | .tuple ks => !ks.isEmpty && areStandard ks
  | _ => true

def areStandard : List Kind → Bool
  | [] => true
  | k :: ks => isStandard k && areStandard ks

end

/-! ## Names -/

/-- A tree that is read back from its text and names a type, also if it is but one word. -/
structure Spells (t : TypeText) (k : Kind) : Prop where
  proper : t.isProper = true
  split : isSplit t = true
  short : hasLongNumber 0 t.print = false
  sized : isSized t = true
  kind : ofTree t = .ok k
  bare : ∀ name w, t = .word name [] → Word.split? name = some w → w.base ≠ "byte"

section

variable {t : TypeText} {k : Kind} {w : Word}

/-- The text of such a tree names the type. -/
theorem Spells.ofText (h : Spells t k) : ofText (Schema.textOf t) = .ok k := by
  have read : (TypeText.read? t.print).filter isSplit = some t := by
    rw [TypeText.read?_print h.proper, Option.filter_some, if_pos h.split]
  simp only [Kind.ofText, Schema.textOf, String.toList_ofList, ofChars, read, h.short,
    Bool.false_eq_true, if_false]
  split
  · next name =>
    have whole := h.kind
    rw [ofTree] at whole
    split at whole
    · next w split =>
      obtain ⟨inner, named, rfl⟩ := Except.map_eq_ok.mp whole
      exact (if_neg (h.bare name w rfl split)).trans named
    · cases whole
  · rw [if_pos h.sized, h.kind]

/-- A word that names a type in its full form. -/
theorem Spells.word (plain : w.IsPlain) (kind : w.expand.kind = .ok k)
    (sized : w.expand.isSized = true) (other : w.base ≠ "byte") :
    Spells (.word w.print []) k where
  proper := plain.isProper
  split := by rw [isSplit, plain.split?_print, Option.isSome_some]
  short := by
    rw [TypeText.print, Suffix.printAll, List.flatMap_nil, List.append_nil, Word.print,
      hasLongNumber_letters_append plain.2.1]
    rcases plain.2.2 with size | ⟨n, ⟨_, short⟩, size⟩
    · rw [size]; rfl
    · rw [size, Word.printSize, hasLongNumber_digits, short]; rfl
  sized := by rw [isSized, plain.split?_print]; exact sized
  kind := by rw [ofTree, plain.split?_print]; simp [kind, Except.map, withSuffixes]
  bare := by
    intro name w' same split
    cases same
    rw [plain.split?_print] at split
    exact Option.some.inj split ▸ other

theorem Spells.suffixed (h : Spells t k) {s : Suffix} (positive : s.isProper = true)
    (written : ∀ n, s = .sized n → Number.isWritable n = true) :
    Spells (t.suffixed s) (k.withSuffixes [s]) := by
  have more (inner : Kind) (ss : List Suffix) :
      inner.withSuffixes (ss ++ [s]) = (inner.withSuffixes ss).withSuffixes [s] :=
    List.foldl_append
  have proper := h.proper
  have kind := h.kind
  have short : hasLongNumber 0 (t.suffixed s).print = false := by
    rw [TypeText.print_suffixed, hasLongNumber_append_suffix s written, h.short]
  cases t with
  | word name ss =>
      refine ⟨?_, h.split, short, h.sized, ?_, ?_⟩
      · simp only [TypeText.isProper, Bool.and_eq_true] at proper
        simp [TypeText.suffixed, TypeText.isProper, proper, positive]
      · rw [ofTree] at kind
        rw [TypeText.suffixed, ofTree]
        split at kind
        · obtain ⟨inner, named, rfl⟩ := Except.map_eq_ok.mp kind
          rw [named, ← more]
          rfl
        · cases kind
      · rintro _ _ same
        simp [TypeText.suffixed] at same
  | tuple items ss =>
      refine ⟨?_, h.split, short, h.sized, ?_, ?_⟩
      · simp only [TypeText.isProper, Bool.and_eq_true] at proper
        simp [TypeText.suffixed, TypeText.isProper, proper, positive]
      · rw [ofTree] at kind
        obtain ⟨ks, read, rfl⟩ := Except.map_eq_ok.mp kind
        rw [TypeText.suffixed, ofTree, read, ← more]
        rfl
      · rintro _ _ same
        cases same

/-- Trees that spell out the items of a tuple spell out the tuple. -/
theorem Spells.tuple {ts : List TypeText} {ks : List Kind} (some : ks ≠ [])
    (h : List.Forall₂ Spells ts ks) : Spells (.tuple ts []) (.tuple ks) := by
  have each {ts : List TypeText} {ks : List Kind} (h : List.Forall₂ Spells ts ks) :
      TypeText.areProper ts = true ∧ areSplit ts = true ∧
        hasLongNumber 0 (TypeText.printItems ts) = false ∧ areSized ts = true ∧
        ofTrees ts = .ok ks := by
    induction h with
    | nil => exact ⟨rfl, rfl, rfl, rfl, rfl⟩
    | @cons t _ ts _ first _ ih =>
        refine ⟨?_, ?_, ?_, ?_, ?_⟩
        · rw [TypeText.areProper, first.proper, ih.1]; rfl
        · rw [areSplit, first.split, ih.2.1]; rfl
        · cases ts with
          | nil => exact first.short
          | cons u ts =>
              rw [TypeText.printItems, hasLongNumber_append_cons (by decide), first.short,
                ih.2.2.1]
              · rfl
              · exact List.cons_ne_nil _ _
        · rw [areSized, first.sized, ih.2.2.2.1]; rfl
        · rw [ofTrees, first.kind, Except.ok_bind, ih.2.2.2.2, Except.ok_bind]
  obtain ⟨proper, split, short, sized, kind⟩ := each h
  have items : ts.isEmpty = false := by
    cases h with
    | nil => exact absurd rfl some
    | cons => rfl
  refine ⟨?_, split, ?_, sized, ?_, ?_⟩
  · rw [TypeText.isProper, items, proper]; rfl
  · rw [TypeText.print, ← List.nil_append ('(' :: _), hasLongNumber_append_cons (by decide),
      hasLongNumber_append_cons (by decide), short]
    rfl
  · rw [ofTree, kind]; rfl
  · rintro _ _ same
    cases same

end

theorem isPlain_one {base : String} {n : Nat} (range : 0 < n ∧ n ≤ 256)
    (letters : base.toList ≠ [] ∧ ∀ c ∈ base.toList, isLetter c = true) :
    Word.IsPlain ⟨base, .one n⟩ := by
  have short : Number.isWritable n = true :=
    Number.isWritable_of_lt (show n < 10 ^ 3 by omega) (by decide)
  exact ⟨letters.1, letters.2, .inr ⟨n, ⟨range.1, short⟩, rfl⟩⟩

theorem isPlain_none {base : String}
    (letters : base.toList ≠ [] ∧ ∀ c ∈ base.toList, isLetter c = true) :
    Word.IsPlain ⟨base, .none⟩ := ⟨letters.1, letters.2, .inl rfl⟩

theorem range_of_isWidth {bits : Nat} (h : Word.isWidth bits = true) :
    0 < bits ∧ bits ≤ 256 := by
  simp only [Word.isWidth, Bool.and_eq_true, decide_eq_true_eq] at h
  omega

mutual

/-- The tree of a standard type spells it out. -/
theorem spells_tree : ∀ k : Kind, k.isStandard = true → Spells k.tree k
  | .uint bits, h => by
      rw [isStandard] at h
      exact .word (isPlain_one (range_of_isWidth h) (by simp [isLetter]))
        (by simp [Word.expand, Word.kind, h]) h (by simp)
  | .int bits, h => by
      rw [isStandard] at h
      exact .word (isPlain_one (range_of_isWidth h) (by simp [isLetter]))
        (by simp [Word.expand, Word.kind, h]) h (by simp)
  | .bytesOf n, h => by
      simp only [isStandard, Bool.and_eq_true, decide_eq_true_eq] at h
      exact .word (isPlain_one ⟨h.1, by omega⟩ (by simp [isLetter]))
        (by simp [Word.expand, Word.kind, h.2])
        (by simpa [Word.expand, Word.isSized] using h.2) (by simp)
  | .bool, _ => .word (isPlain_none (by simp [isLetter])) rfl rfl (by simp)
  | .address, _ => .word (isPlain_none (by simp [isLetter])) rfl rfl (by simp)
  | .bytes, _ => .word (isPlain_none (by simp [isLetter])) rfl rfl (by simp)
  | .string, _ => .word (isPlain_none (by simp [isLetter])) rfl rfl (by simp)
  | .vector n k, h => by
      simp only [isStandard, Bool.and_eq_true] at h
      refine (spells_tree k h.2).suffixed h.1.1 ?_
      rintro _ ⟨⟩
      exact h.1.2
  | .array k, h => (spells_tree k (by rwa [isStandard] at h)).suffixed rfl (by rintro _ ⟨⟩)
  | .tuple ks, h => by
      simp only [isStandard, Bool.and_eq_true] at h
      exact .tuple (by simpa using h.1) (spells_trees ks h.2)

theorem spells_trees : ∀ ks : List Kind, areStandard ks = true →
    List.Forall₂ Spells (trees ks) ks
  | [], _ => .nil
  | k :: ks, h => by
      simp only [areStandard, Bool.and_eq_true] at h
      exact .cons (spells_tree k h.1) (spells_trees ks h.2)

end

/-- The names of standard types stand for them. -/
theorem ofTexts_textOf : ∀ {ks : List Kind}, areStandard ks = true →
    ofTexts (ks.map fun k => Schema.textOf k.tree) = .ok ks
  | [], _ => rfl
  | k :: ks, h => by
      simp only [areStandard, Bool.and_eq_true] at h
      rw [List.map_cons, ofTexts, (spells_tree k h.1).ofText, Except.ok_bind, ofTexts_textOf h.2,
        Except.ok_bind]

mutual

/-- Standard types are regular ones. -/
theorem isRegular_of_isStandard : ∀ k : Kind, k.isStandard = true → k.isRegular = true
  | .uint bits, h | .int bits, h => by
      simp only [isStandard, Word.isWidth, Bool.and_eq_true, decide_eq_true_eq] at h
      simp [isRegular, h.1.2]
  | .bytesOf n, h => by
      simp only [isStandard, Bool.and_eq_true, decide_eq_true_eq] at h
      simp [isRegular, h.2]
  | .bool, _ | .address, _ | .bytes, _ | .string, _ => rfl
  | .vector n k, h => by
      simp only [isStandard, Bool.and_eq_true] at h
      rw [isRegular, h.1.1, isRegular_of_isStandard k h.2]
      rfl
  | .array k, h => by
      rw [isStandard] at h
      rw [isRegular, isRegular_of_isStandard k h]
  | .tuple ks, h => by
      simp only [isStandard, Bool.and_eq_true] at h
      rw [isRegular, h.1, areRegular_of_areStandard ks h.2]
      rfl

theorem areRegular_of_areStandard : ∀ ks : List Kind, areStandard ks = true →
    areRegular ks = true
  | [], _ => rfl
  | k :: ks, h => by
      simp only [areStandard, Bool.and_eq_true] at h
      rw [areRegular, isRegular_of_isStandard k h.1, areRegular_of_areStandard ks h.2]
      rfl

end

end Kind

end EthBatch.Abi
