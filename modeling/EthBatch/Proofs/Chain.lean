import EthBatch.Chain
import EthBatch.Proofs.Number

/-!
# Spellings of a chain

A chain is spelled by its number, by the decimal digits of its number, or by one of its names in
any letter case; a text may have blanks around it. All spellings of a chain lead to its number. The
one exception are digits of which there are more than are ever read as a number: they are refused.
-/

namespace EthBatch

namespace Text

variable {c : Char} {core cs : List Char}

theorem toLower_of_isBlank (c : Char) : isBlank c = true → c.toLower = c := by
  revert c
  apply Hex.forall_char
  · decide
  · intro c high _
    exact (Hex.value?_of_le high).2

/-- Is the number that of a blank character? -/
def isBlankCode (n : Nat) : Bool :=
  ((9 ≤ n && n ≤ 13) || n == 0x20 || n == 0x85 || n == 0xa0 || n == 0x1680 ||
    (0x2000 ≤ n && n ≤ 0x200a) || n == 0x2028 || n == 0x2029 || n == 0x202f || n == 0x205f ||
    n == 0x3000) || (0x1c ≤ n && n ≤ 0x1f)

/-- No script has a blank among its digits. -/
theorem not_isBlank_of_decimal? (h : (decimal? c).isSome = true) : isBlank c = false := by
  have apart : ∀ z ∈ zeros, ∀ k : Fin 10, isBlankCode (z + k) = false := by decide +kernel
  have range : ∃ z ∈ zeros, z ≤ c.toNat ∧ c.toNat < z + 10 := by
    rw [decimal?] at h
    split at h
    · next small =>
      split at h
      · next digit =>
        have low : 48 ≤ c.toNat := UInt32.le_iff_toNat_le.mp digit.1
        have high : c.toNat ≤ 57 := UInt32.le_iff_toNat_le.mp digit.2
        exact ⟨0x30, by decide, low, by omega⟩
      · cases h
    · rw [Option.isSome_map, List.find?_isSome] at h
      obtain ⟨z, mem, inside⟩ := h
      exact ⟨z, mem, by simpa using inside⟩
  obtain ⟨z, mem, low, high⟩ := range
  have := apart z mem ⟨c.toNat - z, by omega⟩
  rwa [Nat.add_sub_cancel' low] at this

theorem toLower_of_decimal? (c : Char) : (decimal? c).isSome = true → c.toLower = c := by
  revert c
  apply Hex.forall_char
  · decide
  · intro c high _
    exact (Hex.value?_of_le high).2

/-- A text with nothing but blanks around it. -/
def Pads (core cs : List Char) : Prop :=
  ∃ before after, cs = before ++ core ++ after ∧ (∀ c ∈ before, isBlank c = true) ∧
    ∀ c ∈ after, isBlank c = true

/-- The blanks around a text are removed, and no more. -/
theorem Pads.trim (h : Pads core cs) (solid : ∀ c ∈ core, isBlank c = false) :
    Text.trim cs = core := by
  obtain ⟨before, after, rfl, front, back⟩ := h
  have stop (ds es : List Char) (first : ∀ c ∈ ds, isBlank c = false) (some : ds ≠ []) :
      (ds ++ es).dropWhile isBlank = ds ++ es := by
    cases ds with
    | nil => exact absurd rfl some
    | cons d ds => simp [first d List.mem_cons_self]
  rw [Text.trim, trimBy, List.append_assoc, List.dropWhile_append_of_pos front]
  by_cases nothing : core = []
  · rw [nothing, List.nil_append, List.dropWhile_eq_nil_iff.mpr back]
    rfl
  · rw [stop core after solid nothing, List.reverse_append,
      List.dropWhile_append_of_pos fun c mem => back c (List.mem_reverse.mp mem),
      ← List.append_nil core.reverse, stop _ [] _ (by simpa using nothing), List.append_nil,
      List.reverse_reverse]
    exact fun c mem => solid c (List.mem_reverse.mp mem)

end Text

namespace Chain

/-- A value names the chain of a number. -/
inductive Spells : Int → Value → Prop where
  | ofNumber (n : Int) : Spells n (.int n)
  | ofDigits {n : Nat} {ds : List Char} {s : String} (nonempty : ds ≠ [])
      (value : Text.natOfDigits? ds = some n) (padded : Text.Pads ds s.toList) :
      Spells n (.text s)
  | ofName {n : Nat} {known : String} {core : List Char} {s : String}
      (listed : (known, n) ∈ names ++ aliases) (letters : core.map Char.toLower = known.toList)
      (padded : Text.Pads core s.toList) : Spells n (.text s)

/-- A text is longer, apart from blanks around it, than what is read as a number. -/
def IsOverlong : Value → Prop
  | .text s => Number.maxDigits < (Text.trim s.toList).length
  | _ => False

variable {n : Nat} {known : String} {core cs ds : List Char}

/-! ## Names -/

/-- A name is not mistaken for digits, has no blanks in it, is short, and is found. -/
theorem name_facts : ∀ p ∈ names ++ aliases, p.1.toList.all Text.isDigit = false ∧
    p.1.toList.any Text.isBlank = false ∧ p.1.toList.length ≤ Number.maxDigits ∧
    ofName? p.1 = some p.2 := by
  decide +kernel

theorem trim_name (listed : (known, n) ∈ names ++ aliases)
    (letters : core.map Char.toLower = known.toList) (padded : Text.Pads core cs) :
    Text.trim cs = core := by
  obtain ⟨-, solid, -⟩ := name_facts _ listed
  apply padded.trim
  intro c mem
  have lower : c.toLower ∈ known.toList := letters ▸ List.mem_map_of_mem mem
  rw [← Bool.not_eq_true]
  intro blank
  rw [Text.toLower_of_isBlank c blank] at lower
  exact List.any_eq_false.mp solid c lower blank

theorem ofChars_name (listed : (known, n) ∈ names ++ aliases)
    (letters : core.map Char.toLower = known.toList) (padded : Text.Pads core cs)
    (shown : String) : ofChars cs shown = .ok n := by
  obtain ⟨wordy, -, -, found⟩ := name_facts _ listed
  rw [ofChars, trim_name listed letters padded, letters]
  simp only [wordy, Bool.and_false, Bool.false_eq_true, if_false, String.ofList_toList, found]

/-! ## Digits -/

theorem trim_digits (value : Text.natOfDigits? ds = some n) (padded : Text.Pads ds cs) :
    Text.trim cs = ds :=
  padded.trim fun c mem =>
    Text.not_isBlank_of_decimal? (Text.isSome_decimal?_of_natOfDigits? value c mem)

/-- Digits without underscores are read unless there are too many. -/
theorem natural?_digits (nonempty : ds ≠ []) (value : Text.natOfDigits? ds = some n) :
    Number.natural? ds = if ds.length ≤ Number.maxDigits then some n else none := by
  have bare : '_' ∉ ds := by
    intro mem
    cases Text.isSome_decimal?_of_natOfDigits? value _ mem
  have grouped : Number.Grouped Number.isDecimal ds := by
    rintro before after rfl
    exact absurd (List.mem_append_right before List.mem_cons_self) bare
  have same : Number.ungrouped ds = ds := Number.ungrouped_eq_self bare
  split
  · next few =>
    exact Number.natural?_eq_some_iff.mpr ⟨grouped, by rwa [same], by rwa [same], by rwa [same]⟩
  · next many =>
    rw [Option.eq_none_iff_forall_ne_some]
    intro m read
    obtain ⟨-, -, few, -⟩ := Number.natural?_eq_some_iff.mp read
    rw [same] at few
    exact many few

theorem ofChars_digits (nonempty : ds ≠ []) (value : Text.natOfDigits? ds = some n)
    (padded : Text.Pads ds cs) (shown : String) :
    ofChars cs shown = if ds.length ≤ Number.maxDigits then .ok n else .error .badValue := by
  have placed := Text.isSome_decimal?_of_natOfDigits? value
  have lower : ds.map Char.toLower = ds := by
    rw [List.map_congr_left fun c mem => Text.toLower_of_decimal? c (placed c mem), List.map_id']
  have digits : ds.all Text.isDigit = true :=
    List.all_eq_true.mpr fun c mem => by rw [Text.isDigit, placed c mem, Bool.true_or]
  have some : ds.isEmpty = false := by simpa using nonempty
  rw [ofChars, trim_digits value padded, lower]
  simp only [some, digits, natural?_digits nonempty value, Bool.not_false, Bool.and_self, if_true]
  by_cases few : ds.length ≤ Number.maxDigits <;> simp only [few, if_true, if_false]

/-! ## Any spelling -/

variable {k : Int} {v w : Value}

/-- A spelling of a chain that is not too long leads to its number. -/
theorem Spells.number_eq (h : Spells k v) (short : ¬ IsOverlong v) : number v = .ok k := by
  cases h with
  | ofNumber => rfl
  | ofDigits nonempty value padded =>
      rw [IsOverlong, trim_digits value padded, Nat.not_lt] at short
      simp only [Chain.number, resolve, ofChars_digits nonempty value padded, if_pos short]
      rfl
  | ofName listed letters padded =>
      simp only [Chain.number, resolve, ofChars_name listed letters padded]
      rfl

/-- Digits that are too many are refused. -/
theorem Spells.number_eq_error (h : Spells k v) (long : IsOverlong v) :
    number v = .error .badValue := by
  cases h with
  | ofNumber => exact long.elim
  | ofDigits nonempty value padded =>
      rw [IsOverlong, trim_digits value padded] at long
      simp only [Chain.number, resolve, ofChars_digits nonempty value padded,
        if_neg (Nat.not_le.mpr long)]
      rfl
  | ofName listed letters padded =>
      obtain ⟨-, -, short, -⟩ := name_facts _ listed
      rw [IsOverlong, trim_name listed letters padded, ← List.length_map, letters] at long
      exact absurd short (Nat.not_le.mpr long)

end Chain

end EthBatch
