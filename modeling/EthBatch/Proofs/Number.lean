import EthBatch.Number.Numeral
import EthBatch.Proofs.Abi.Grammar
import EthBatch.Proofs.Block
import Mathlib

/-!
# Digits in groups

Underscores may group the digits of a number, each between two digits. A run that is grouped so is
read without its underscores, and all others are refused. What is read as a whole number or as a
decimal fraction consists of few characters besides.
-/

namespace EthBatch

namespace Text

variable {c : Char} {cs : List Char} {n : Nat}

/-- The text has no blanks at its ends. -/
structure IsTrimmed (cs : List Char) : Prop where
  first : ∀ c ∈ cs.head?, isBlank c = false
  last : ∀ c ∈ cs.getLast?, isBlank c = false

theorem IsTrimmed.trim (h : IsTrimmed cs) : trim cs = cs := trimBy_eq_self h.first h.last

theorem isSpace_of_not_isBlank (h : isBlank c = false) : isSpace c = false :=
  (Bool.or_eq_false_iff.mp h).1

theorem IsTrimmed.trimBy_isSpace (h : IsTrimmed cs) : trimBy isSpace cs = cs :=
  trimBy_eq_self (fun c mem => isSpace_of_not_isBlank (h.first c mem))
    fun c mem => isSpace_of_not_isBlank (h.last c mem)

/-- All that a number is read from are digits of some script. -/
theorem isSome_decimal?_of_natOfDigits? (h : natOfDigits? cs = some n) :
    ∀ c ∈ cs, (decimal? c).isSome = true := by
  rw [natOfDigits?] at h
  generalize 0 = start at h
  induction cs generalizing start with
  | nil => simp
  | cons c cs ih =>
      rw [List.foldlM_cons] at h
      obtain ⟨next, read, h⟩ := Option.bind_eq_some_iff.mp h
      obtain ⟨d, value, _⟩ := Option.map_eq_some_iff.mp read
      exact List.forall_mem_cons.mpr ⟨by rw [value]; rfl, ih next h⟩

/-- Zeros in front make no difference. -/
theorem natOfDigits?_zeros_append {zeros : List Char} (h : ∀ c ∈ zeros, c = '0')
    (cs : List Char) : natOfDigits? (zeros ++ cs) = natOfDigits? cs := by
  induction zeros with
  | nil => rfl
  | cons c zeros ih =>
      obtain ⟨rfl, rest⟩ := List.forall_mem_cons.mp h
      exact ih rest

/-- The decimal digits of ASCII are the ten digits. -/
theorem decimal?_of_lt (h : c.toNat < 128) :
    decimal? c = if Number.isAsciiDigit c then some (c.toNat - 48) else none := by
  rw [decimal?, if_pos h, Number.isAsciiDigit]
  congr 1
  simp

end Text

namespace Number

variable {p q : Char → Bool} {c : Char} {cs ds : List Char}

/-- Every underscore stands between two digits. -/
def Grouped (p : Char → Bool) (cs : List Char) : Prop :=
  ∀ before after, cs = before ++ '_' :: after →
    (∃ front c, before = front ++ [c] ∧ p c = true) ∧ ∃ c back, after = c :: back ∧ p c = true

/-- A text without its underscores. -/
def ungrouped (cs : List Char) : List Char := cs.filter (· ≠ '_')

@[simp] theorem ungrouped_nil : ungrouped [] = [] := rfl

@[simp] theorem ungrouped_cons_underscore (cs : List Char) :
    ungrouped ('_' :: cs) = ungrouped cs := rfl

theorem ungrouped_cons (h : c ≠ '_') (cs : List Char) :
    ungrouped (c :: cs) = c :: ungrouped cs := by
  rw [ungrouped, List.filter_cons_of_pos (by simpa using h), ungrouped]

theorem ungrouped_append (cs ds : List Char) :
    ungrouped (cs ++ ds) = ungrouped cs ++ ungrouped ds := List.filter_append ..

theorem mem_ungrouped : c ∈ ungrouped cs ↔ c ∈ cs ∧ c ≠ '_' := by
  simp [ungrouped]

theorem ungrouped_eq_self (h : '_' ∉ cs) : ungrouped cs = cs := by
  rw [ungrouped, List.filter_eq_self]
  exact fun c mem => decide_eq_true fun same => h (same ▸ mem)

namespace Grouped

theorem nil (p : Char → Bool) : Grouped p [] := by
  intro before after split
  simp at split

theorem head (h : Grouped p (c :: cs)) : c ≠ '_' := by
  rintro rfl
  obtain ⟨⟨front, _, none, _⟩, _⟩ := h [] cs rfl
  simp at none

theorem last {front : List Char} (h : Grouped p (front ++ [c])) : c ≠ '_' := by
  rintro rfl
  obtain ⟨_, _, _, none, _⟩ := h front [] rfl
  cases none

theorem congr (same : ∀ c ∈ cs, p c = q c) (h : Grouped p cs) : Grouped q cs := by
  rintro before after rfl
  obtain ⟨⟨front, c, rfl, left⟩, d, back, rfl, right⟩ := h before after rfl
  exact ⟨⟨front, c, rfl, same c (by simp) ▸ left⟩, d, back, rfl, same d (by simp) ▸ right⟩

/-- What stands at the end of a grouped run is grouped if it does not begin with an underscore. -/
theorem suffix (before : List Char) (h : Grouped p (before ++ cs))
    (first : ∀ rest, cs ≠ '_' :: rest) : Grouped p cs := by
  rintro front after rfl
  obtain ⟨⟨whole, c, split, left⟩, right⟩ := h (before ++ front) after (by simp)
  refine ⟨?_, right⟩
  cases front using List.reverseRecOn with
  | nil => exact absurd rfl (first after)
  | append_singleton front d =>
      rw [← List.append_assoc] at split
      obtain ⟨_, same⟩ := List.append_inj' split rfl
      obtain rfl := List.singleton_inj.mp same
      exact ⟨front, d, rfl, left⟩

/-- A character at the front that is not an underscore makes no difference if none follows. -/
theorem cons_iff (h : c ≠ '_') (next : ∀ rest, cs ≠ '_' :: rest) :
    Grouped p (c :: cs) ↔ Grouped p cs := by
  refine ⟨fun grouped => suffix [c] grouped next, ?_⟩
  intro grouped before after split
  cases before with
  | nil => exact absurd (List.cons.inj split).1 h
  | cons d before =>
      obtain ⟨rfl, rfl⟩ := List.cons.inj split
      obtain ⟨⟨front, d, rfl, left⟩, right⟩ := grouped before after rfl
      exact ⟨⟨c :: front, d, rfl, left⟩, right⟩

/-- An underscore behind the first character stands between two digits. -/
theorem cons_underscore_iff (h : c ≠ '_') (mark : p '_' = false) :
    Grouped p (c :: '_' :: cs) ↔
      p c = true ∧ (∃ d rest, cs = d :: rest ∧ p d = true) ∧ Grouped p cs := by
  constructor
  · intro grouped
    obtain ⟨⟨front, d, same, left⟩, next⟩ := grouped [c] cs rfl
    have same : [] ++ [c] = front ++ [d] := same
    obtain ⟨_, same⟩ := List.append_inj' same rfl
    obtain rfl := List.singleton_inj.mp same
    refine ⟨left, next, suffix [c, '_'] grouped ?_⟩
    rintro rest rfl
    obtain ⟨d, _, same, right⟩ := next
    rw [← (List.cons.inj same).1, mark] at right
    cases right
  · rintro ⟨left, right, grouped⟩ before after split
    rcases before with _ | ⟨a, _ | ⟨b, before⟩⟩
    · exact absurd (List.cons.inj split).1 h
    · obtain ⟨rfl, behind⟩ := List.cons.inj split
      obtain ⟨_, rfl⟩ := List.cons.inj behind
      exact ⟨⟨[], c, rfl, left⟩, right⟩
    · obtain ⟨rfl, behind⟩ := List.cons.inj split
      obtain ⟨rfl, rfl⟩ := List.cons.inj behind
      obtain ⟨⟨front, d, rfl, digit⟩, next⟩ := grouped before after rfl
      exact ⟨⟨c :: '_' :: front, d, rfl, digit⟩, next⟩

end Grouped

/-- A run is read if and only if it is grouped, and then without its underscores. -/
theorem ungroup_eq_some_iff (mark : p '_' = false) :
    ungroup p cs = some ds ↔ Grouped p cs ∧ ds = ungrouped cs := by
  induction cs using ungroup.induct p generalizing ds with
  | case1 => simp [ungroup, Grouped.nil, eq_comm]
  | case2 rest =>
      rw [ungroup]
      exact iff_of_false nofun fun h => h.1.head rfl
  | case3 c d rest first digits ih =>
      have step : ungroup p (c :: '_' :: d :: rest) = (ungroup p (d :: rest)).map (c :: ·) := by
        rw [ungroup, if_pos digits]
        exact first
      rw [Bool.and_eq_true] at digits
      rw [step, Option.map_eq_some_iff, Grouped.cons_underscore_iff first mark,
        ungrouped_cons first, ungrouped_cons_underscore]
      constructor
      · rintro ⟨tail, read, rfl⟩
        obtain ⟨grouped, rfl⟩ := ih.mp read
        exact ⟨⟨digits.1, ⟨d, rest, rfl, digits.2⟩, grouped⟩, rfl⟩
      · rintro ⟨⟨_, _, grouped⟩, rfl⟩
        exact ⟨_, ih.mpr ⟨grouped, rfl⟩, rfl⟩
  | case4 c d rest first digits =>
      have refused : ungroup p (c :: '_' :: d :: rest) = none := by
        rw [ungroup, if_neg digits]
        exact first
      rw [refused, Grouped.cons_underscore_iff first mark]
      refine iff_of_false nofun ?_
      rintro ⟨⟨left, ⟨_, _, same, right⟩, _⟩, _⟩
      obtain ⟨rfl, _⟩ := List.cons.inj same
      exact digits (by rw [left, right]; rfl)
  | case5 c first =>
      have refused : ungroup p [c, '_'] = none := by
        rw [ungroup]
        exact first
      rw [refused]
      exact iff_of_false nofun fun h => @Grouped.last p '_' [c] h.1 rfl
  | case6 c rest first inner last ih =>
      have step : ungroup p (c :: rest) = (ungroup p rest).map (c :: ·) := by
        rw [ungroup]
        · exact first
        · exact inner
        · exact last
      have next : ∀ tail, rest ≠ '_' :: tail := by
        rintro (_ | ⟨d, tail⟩) rfl
        · exact last rfl
        · exact inner d tail rfl
      rw [step, Option.map_eq_some_iff, Grouped.cons_iff first next, ungrouped_cons first]
      constructor
      · rintro ⟨tail, read, rfl⟩
        obtain ⟨grouped, rfl⟩ := ih.mp read
        exact ⟨grouped, rfl⟩
      · rintro ⟨grouped, rfl⟩
        exact ⟨_, ih.mpr ⟨grouped, rfl⟩, rfl⟩

/-! ## Whole numbers -/

/-- Is the character a decimal digit of any script? -/
def isDecimal (c : Char) : Bool := (Text.decimal? c).isSome

theorem isDecimal_of_lt (h : c.toNat < 128) : isDecimal c = isAsciiDigit c := by
  rw [isDecimal, Text.decimal?_of_lt h]
  split <;> simp [*]

/-- A natural number is read from some digits in groups, but not from too many. -/
theorem natural?_eq_some_iff {n : Nat} : natural? cs = some n ↔
    Grouped isDecimal cs ∧ ungrouped cs ≠ [] ∧ (ungrouped cs).length ≤ maxDigits ∧
      Text.natOfDigits? (ungrouped cs) = some n := by
  have mark : isDecimal '_' = false := by decide
  constructor
  · intro h
    obtain ⟨digits, read, h⟩ := Option.bind_eq_some_iff.mp h
    obtain ⟨grouped, rfl⟩ := (ungroup_eq_some_iff mark).mp read
    split at h
    · cases h
    · next size =>
      simp only [Bool.or_eq_true, List.isEmpty_iff, decide_eq_true_eq, not_or] at size
      exact ⟨grouped, size.1, Nat.le_of_not_lt size.2, h⟩
  · rintro ⟨grouped, some, small, value⟩
    apply Option.bind_eq_some_iff.mpr
    refine ⟨_, (ungroup_eq_some_iff mark).mpr ⟨grouped, rfl⟩, ?_⟩
    rw [if_neg, value]
    simp [some, small]

/-- A sign, or none. -/
theorem signed_cases (cs : List Char) :
    (∃ ds, cs = '-' :: ds ∧ signed cs = (true, ds)) ∨
    (∃ ds, cs = '+' :: ds ∧ signed cs = (false, ds)) ∨
    (signed cs = (false, cs) ∧ (∀ ds, cs ≠ '-' :: ds) ∧ ∀ ds, cs ≠ '+' :: ds) := by
  unfold signed
  split
  · exact .inl ⟨_, rfl, rfl⟩
  · exact .inr (.inl ⟨_, rfl, rfl⟩)
  · next minus plus => exact .inr (.inr ⟨rfl, minus, plus⟩)

/-- There is nothing in front of the digits but the sign. -/
theorem exists_sign (cs : List Char) :
    ∃ sign, cs = sign ++ (signed cs).2 ∧ ∀ c ∈ sign, c = '-' ∨ c = '+' := by
  rcases signed_cases cs with ⟨ds, rfl, same⟩ | ⟨ds, rfl, same⟩ | ⟨same, _⟩
  · exact ⟨['-'], by rw [same]; rfl, by simp⟩
  · exact ⟨['+'], by rw [same]; rfl, by simp⟩
  · exact ⟨[], by rw [same]; rfl, nofun⟩

theorem mem_of_mem_signed (h : c ∈ (signed cs).2) : c ∈ cs := by
  obtain ⟨sign, split, _⟩ := exists_sign cs
  rw [split]
  exact List.mem_append_right _ h

theorem mem_signed (h : c ∈ cs) : (c = '-' ∨ c = '+') ∨ c ∈ (signed cs).2 := by
  obtain ⟨sign, split, only⟩ := exists_sign cs
  rw [split] at h
  exact (List.mem_append.mp h).imp_left (only c)

/-- A number with a sign. -/
def withSign (negative : Bool) (n : Nat) : Int := if negative then -n else n

theorem whole?_eq_some_iff (trimmed : Text.IsTrimmed cs) {n : Int} : whole? cs = some n ↔
    ∃ m, natural? (signed cs).2 = some m ∧ withSign (signed cs).1 m = n := by
  rw [whole?, trimmed.trimBy_isSpace]
  dsimp only
  cases natural? (signed cs).2 with
  | none => simp
  | some m => simp [withSign]

/-- The sign makes no difference to how digits are grouped. -/
theorem grouped_signed_iff (mark : p '_' = false) (plus : p '+' = false) (minus : p '-' = false) :
    Grouped p (signed cs).2 ↔ Grouped p cs := by
  have behind (c : Char) (other : c ≠ '_') (sign : p c = false) (ds : List Char) :
      Grouped p ds ↔ Grouped p (c :: ds) := by
    by_cases next : ∃ rest, ds = '_' :: rest
    · obtain ⟨rest, rfl⟩ := next
      rw [Grouped.cons_underscore_iff other mark, sign]
      exact iff_of_false (fun grouped => grouped.head rfl) fun grouped => Bool.noConfusion grouped.1
    · exact (Grouped.cons_iff other (not_exists.mp next)).symm
  rcases signed_cases cs with ⟨ds, rfl, same⟩ | ⟨ds, rfl, same⟩ | ⟨same, _⟩
  · rw [same]
    exact behind '-' (by decide) minus ds
  · rw [same]
    exact behind '+' (by decide) plus ds
  · rw [same]

/-! ## Decimal fractions -/

/-- A character of ASCII that is not an underscore. -/
def IsPlain (c : Char) : Prop := c.toNat < 128 ∧ c ≠ '_'

instance (c : Char) : Decidable (IsPlain c) :=
  inferInstanceAs (Decidable (c.toNat < 128 ∧ c ≠ '_'))

theorem isPlain_of_isAsciiDigit (h : isAsciiDigit c = true) : IsPlain c := by
  rw [isAsciiDigit_eq_isDigit, Char.isDigit_iff_toNat] at h
  have high : c.toNat ≤ 57 := h.2
  refine ⟨by omega, ?_⟩
  rintro rfl
  exact absurd high (by decide)

theorem isPlain_of_toLower (h : IsPlain c.toLower) : IsPlain c := by
  constructor
  · apply Nat.lt_of_not_le
    intro beyond
    have small := h.1
    rw [(Hex.value?_of_le beyond).2] at small
    omega
  · rintro rfl
    exact h.2 rfl

theorem isPlain_of_all (h : cs.all isAsciiDigit = true) : ∀ c ∈ cs, IsPlain c :=
  fun c mem => isPlain_of_isAsciiDigit (List.all_eq_true.mp h c mem)

theorem isPlain_of_signed (h : ∀ c ∈ (signed cs).2, IsPlain c) : ∀ c ∈ cs, IsPlain c := by
  intro c mem
  rcases mem_signed mem with (rfl | rfl) | mem
  · decide
  · decide
  · exact h c mem

theorem isPlain_of_exponent? {e : Int} (h : exponent? cs = some e) : ∀ c ∈ cs, IsPlain c := by
  unfold exponent? at h
  split at h
  · nofun
  · next c rest =>
    split at h
    · next letter =>
      have first : IsPlain c := by
        simp only [Bool.or_eq_true, beq_iff_eq] at letter
        rcases letter with rfl | rfl <;> decide
      refine List.forall_mem_cons.mpr ⟨first, isPlain_of_signed ?_⟩
      generalize signed rest = number at h
      obtain ⟨negative, digits⟩ := number
      dsimp only at h
      split at h
      · cases h
      · next run =>
        simp only [Bool.or_eq_true, Bool.not_eq_true', not_or, Bool.not_eq_false] at run
        exact isPlain_of_all run.2
    · cases h

theorem isPlain_of_unsigned? {d : Nat × Int} (h : unsigned? cs = some d) :
    ∀ c ∈ cs, IsPlain c := by
  have digits (ds : List Char) (rest : ∀ c ∈ ds.dropWhile isAsciiDigit, IsPlain c) :
      ∀ c ∈ ds, IsPlain c := by
    rw [← @List.takeWhile_append_dropWhile _ isAsciiDigit ds]
    exact List.forall_mem_append.mpr ⟨isPlain_of_all List.all_takeWhile, rest⟩
  apply digits
  unfold unsigned? at h
  generalize cs.dropWhile isAsciiDigit = rest at h
  dsimp only at h
  split at h
  · next more =>
    split at h
    · cases h
    · obtain ⟨_, exponent, _⟩ := Option.bind_eq_some_iff.mp h
      exact List.forall_mem_cons.mpr ⟨by decide, digits more (isPlain_of_exponent? exponent)⟩
  · split at h
    · cases h
    · obtain ⟨_, exponent, _⟩ := Option.bind_eq_some_iff.mp h
      exact isPlain_of_exponent? exponent

/-- A numeral has ASCII characters only, and no underscores. -/
theorem isPlain_of_numeral? {d : Decimal} (h : numeral? cs = some d) : ∀ c ∈ cs, IsPlain c := by
  apply isPlain_of_signed
  unfold numeral? at h
  generalize signed cs = number at h
  obtain ⟨negative, body⟩ := number
  have ofWord (letters : List Char)
      (plain : letters.all (fun c => decide (IsPlain c)) = true)
      (same : (String.ofList (body.map Char.toLower) == String.ofList letters) = true) :
      ∀ c ∈ body, IsPlain c := by
    intro c mem
    have letter : c.toLower ∈ letters :=
      String.ofList_inj.mp (beq_iff_eq.mp same) ▸ List.mem_map_of_mem mem
    exact isPlain_of_toLower (of_decide_eq_true (List.all_eq_true.mp plain _ letter))
  dsimp only at h
  split at h
  · next word =>
    rcases Bool.or_eq_true_iff.mp word with word | word
    · exact ofWord ['i', 'n', 'f'] (by decide) word
    · exact ofWord ['i', 'n', 'f', 'i', 'n', 'i', 't', 'y'] (by decide) word
  · split at h
    · next word => exact ofWord ['n', 'a', 'n'] (by decide) word
    · obtain ⟨_, read, _⟩ := Option.map_eq_some_iff.mp h
      exact isPlain_of_unsigned? read

/-- ASCII digits are written as they are. -/
theorem asciiDigits_eq_self (ascii : ∀ c ∈ cs, c.toNat < 128) : asciiDigits cs = cs := by
  induction cs with
  | nil => rfl
  | cons c cs ih =>
      obtain ⟨small, rest⟩ := List.forall_mem_cons.mp ascii
      have tail := ih rest
      rw [asciiDigits] at tail
      rw [asciiDigits, List.map_cons, tail, Text.decimal?_of_lt small]
      by_cases digit : isAsciiDigit c = true
      · have low : 48 ≤ c.toNat := by
          rw [isAsciiDigit_eq_isDigit, Char.isDigit_iff_toNat] at digit
          exact digit.1
        rw [if_pos digit]
        dsimp only
        rw [Nat.add_sub_cancel' low, Char.ofNat_toNat]
      · rw [if_neg digit]

/-- A decimal fraction in ASCII characters is read if its digits are grouped. -/
theorem real?_of_ascii (trimmed : Text.IsTrimmed cs) (ascii : ∀ c ∈ cs, c.toNat < 128) {x : Float} :
    real? cs = some x ↔
      Grouped isAsciiDigit cs ∧ (numeral? (ungrouped cs)).map nearest = some x := by
  rw [real?, trimmed.trimBy_isSpace, asciiDigits_eq_self ascii]
  constructor
  · intro h
    obtain ⟨digits, read, h⟩ := Option.bind_eq_some_iff.mp h
    obtain ⟨grouped, rfl⟩ := (ungroup_eq_some_iff (by decide)).mp read
    exact ⟨grouped, h⟩
  · rintro ⟨grouped, h⟩
    exact Option.bind_eq_some_iff.mpr
      ⟨_, (ungroup_eq_some_iff (by decide)).mpr ⟨grouped, rfl⟩, h⟩

end Number

end EthBatch
