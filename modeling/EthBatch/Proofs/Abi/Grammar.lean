import EthBatch.Abi.TypeText
import Mathlib

/-!
# Reading type names back

The text of a type name is read back as its tree: words end where no letter or digit follows,
suffixes where no bracket follows, and the items of a tuple at commas and at the parenthesis that
closes it. Names of words must not be empty, tuples must have items, and sizes must be positive.
-/

namespace EthBatch

namespace Text

theorem decimal?_of_isDigit {c : Char} (h : c.isDigit = true) :
    decimal? c = some (c.toNat - '0'.toNat) := by
  obtain ⟨low, high⟩ := Char.isDigit_iff_toNat.mp h
  have first : '0' ≤ c := by
    rw [Char.le_def, UInt32.le_iff_toNat_le]
    exact low
  have last : c ≤ '9' := by
    rw [Char.le_def, UInt32.le_iff_toNat_le]
    exact high
  have small : c.toNat < 128 := Nat.lt_of_le_of_lt high (by decide)
  rw [decimal?, if_pos small, if_pos ⟨first, last⟩]
  rfl

/-- A run of ASCII digits denotes the number it should. -/
theorem natOfDigits?_of_isDigit {cs : List Char} (h : ∀ c ∈ cs, c.isDigit = true) :
    natOfDigits? cs = some (Nat.ofDigitChars 10 cs 0) := by
  rw [natOfDigits?]
  generalize 0 = n
  induction cs generalizing n with
  | nil => simp
  | cons c cs ih =>
      obtain ⟨first, rest⟩ := List.forall_mem_cons.mp h
      rw [List.foldlM_cons, decimal?_of_isDigit first, Nat.ofDigitChars_cons]
      simpa [Nat.mul_comm] using ih rest _

end Text

namespace Number

theorem isDigit_of_mem_digits {n : Nat} {c : Char} (h : c ∈ digits n) : c.isDigit = true :=
  Nat.isDigit_of_mem_toDigits (by decide) (by decide) h

theorem digits_ne_nil (n : Nat) : digits n ≠ [] := Nat.toDigits_ne_nil

theorem isWritable_iff {n : Int} : isWritable n = true ↔ n.natAbs < 10 ^ maxDigits := by
  rw [isWritable, decide_eq_true_eq]
  exact Nat.length_toDigits_le_iff (by decide) (by decide)

/-- A number below a power of ten has few digits. -/
theorem isWritable_of_lt {n k : Nat} (h : n < 10 ^ k) (few : k ≤ maxDigits) :
    isWritable n = true := by
  rw [isWritable_iff, Int.natAbs_natCast]
  exact Nat.lt_of_lt_of_le h (Nat.pow_le_pow_right (by decide) few)

theorem natOfDigits?_digits (n : Nat) : Text.natOfDigits? (digits n) = some n := by
  rw [Text.natOfDigits?_of_isDigit fun c h => isDigit_of_mem_digits h, digits,
    Nat.ofDigitChars_ten_toDigits]

theorem isAsciiDigit_eq_isDigit (c : Char) : isAsciiDigit c = c.isDigit := by
  rw [Bool.eq_iff_iff, Char.isDigit_iff_toNat]
  simp only [isAsciiDigit, Bool.and_eq_true, decide_eq_true_eq, Char.le_def,
    UInt32.le_iff_toNat_le]
  rfl

/-- The digits of a positive number do not begin with a zero. -/
theorem exists_digits_cons {n : Nat} (h : 0 < n) : ∃ c cs, digits n = c :: cs ∧ c ≠ '0' := by
  induction n using Nat.strongRecOn with
  | ind n ih =>
      by_cases small : n < 10
      · refine ⟨Nat.digitChar n, [], Nat.toDigits_of_lt_base small, ?_⟩
        have table : ∀ n : Fin 10, 0 < n.val → Nat.digitChar n.val ≠ '0' := by decide
        exact table ⟨n, small⟩ h
      · obtain ⟨c, cs, first, nonzero⟩ := ih (n / 10) (by omega) (by omega)
        refine ⟨c, cs ++ [Nat.digitChar (n % 10)], ?_, nonzero⟩
        rw [digits, Nat.toDigits_of_base_le (by decide) (by omega), ← digits, first]
        rfl

end Number

namespace Abi

theorem size?_digits {n : Nat} (h : 0 < n) : size? (Number.digits n) = some n := by
  obtain ⟨c, cs, eq, nonzero⟩ := Number.exists_digits_cons h
  have all : (c :: cs).all Number.isAsciiDigit = true := by
    rw [List.all_eq_true, ← eq]
    intro d mem
    rw [Number.isAsciiDigit_eq_isDigit]
    exact Number.isDigit_of_mem_digits mem
  have value : Text.natOfDigits? (c :: cs) = some n := eq ▸ Number.natOfDigits?_digits n
  rw [eq, size?]
  · rw [if_pos all, value]
  · nofun
  · rintro _ ⟨rfl, _⟩
    exact nonzero rfl

/-- What ends a run of characters starts what is behind it. -/
theorem span_append {p : Char → Bool} {cs : List Char} (more : List Char)
    (all : ∀ c ∈ cs, p c = true) (ends : ∀ c, more.head? = some c → p c = false) :
    (cs ++ more).takeWhile p = cs ∧ (cs ++ more).dropWhile p = more := by
  rw [List.takeWhile_append_of_pos all, List.dropWhile_append_of_pos all]
  cases more with
  | nil => simp
  | cons c more => simp [ends c rfl]

namespace Suffix

/-- A size is positive. -/
def isProper : Suffix → Bool
  | .unsized => true
  | .sized n => 0 < n

theorem printAll_cons (s : Suffix) (ss : List Suffix) :
    printAll (s :: ss) = s.print ++ printAll ss := List.flatMap_cons

theorem length_print_pos (s : Suffix) : 2 ≤ s.print.length := by
  cases s <;> simp [print]

end Suffix

namespace TypeText

variable {rest : List Char} {fuel : Nat}

/-- What stands in brackets is read as one suffix. -/
theorem suffixes_bracket (fuel : Nat) (body more : List Char) {s : Suffix}
    (closed : ∀ c ∈ body, c ≠ ']')
    (read : (if body.isEmpty then some Suffix.unsized else (size? body).map Suffix.sized) =
      some s) :
    suffixes (fuel + 1) ('[' :: (body ++ ']' :: more)) =
      (suffixes fuel more).map fun p => (s :: p.1, p.2) := by
  have inside : (body ++ ']' :: more).takeWhile (· ≠ ']') = body := by
    rw [List.takeWhile_append_of_pos (by simpa using closed)]
    simp
  have behind : (body ++ ']' :: more).dropWhile (· ≠ ']') = ']' :: more := by
    rw [List.dropWhile_append_of_pos (by simpa using closed)]
    simp
  rw [suffixes]
  simp only [inside, behind, Option.bind_eq_bind, Option.bind_some]
  cases empty : body.isEmpty with
  | true =>
      obtain rfl : Suffix.unsized = s := by simpa [empty] using read
      cases suffixes fuel more <;> rfl
  | false =>
      obtain ⟨n, size, rfl⟩ : ∃ n, size? body = some n ∧ Suffix.sized n = s := by
        simpa [empty] using read
      rw [size]
      cases suffixes fuel more <;> rfl

/-- A suffix is read back in front of anything. -/
theorem suffixes_print {s : Suffix} (proper : s.isProper = true) (more : List Char) :
    suffixes (fuel + 1) (s.print ++ more) =
      (suffixes fuel more).map fun p => (s :: p.1, p.2) := by
  cases s with
  | unsized => exact suffixes_bracket fuel [] more nofun rfl
  | sized n =>
      have closed : ∀ c ∈ Number.digits n, c ≠ ']' := by
        rintro c mem rfl
        exact absurd (Number.isDigit_of_mem_digits mem) (by decide)
      have some : (Number.digits n).isEmpty = false := by simpa using Number.digits_ne_nil n
      have positive : 0 < n := by simpa [Suffix.isProper] using proper
      have read := suffixes_bracket fuel (Number.digits n) more (s := .sized n) closed
        (by rw [some, size?_digits positive]; rfl)
      simpa [Suffix.print] using read

/-- Suffixes are read up to where no further one begins. -/
theorem suffixes_printAll {ss : List Suffix} (proper : ∀ s ∈ ss, s.isProper = true)
    (steps : ss.length < fuel) (ends : rest.head? ≠ some '[') :
    suffixes fuel (Suffix.printAll ss ++ rest) = some (ss, rest) := by
  induction ss generalizing fuel with
  | nil =>
      obtain ⟨fuel, rfl⟩ := Nat.exists_eq_add_of_lt steps
      cases rest with
      | nil => simp [Suffix.printAll, suffixes]
      | cons c rest =>
          have other : c ≠ '[' := by simpa using ends
          simp only [Suffix.printAll, List.flatMap_nil, List.nil_append, suffixes]
          split
          · next h => exact absurd (List.cons.inj h).1 other
          · rfl
  | cons s ss ih =>
      obtain ⟨here, later⟩ := List.forall_mem_cons.mp proper
      obtain ⟨fuel, rfl⟩ : ∃ n, fuel = n + 1 := ⟨fuel - 1, by simp at steps; omega⟩
      have next := ih later (by simpa using steps)
      rw [Suffix.printAll_cons, List.append_assoc, suffixes_print here, next]
      rfl

theorem length_le_printAll (ss : List Suffix) : 2 * ss.length ≤ (Suffix.printAll ss).length := by
  induction ss with
  | nil => simp
  | cons s ss ih =>
      have := s.length_print_pos
      rw [Suffix.printAll_cons, List.length_append, List.length_cons]
      omega

/-! ## Trees -/

mutual

/-- Is the tree one of a name: are its words made of letters and digits, its tuples not empty and
its sizes positive? -/
def isProper : TypeText → Bool
  | .word name ss => !name.isEmpty && name.all isWordChar && ss.all Suffix.isProper
  | .tuple items ss => !items.isEmpty && areProper items && ss.all Suffix.isProper

def areProper : List TypeText → Bool
  | [] => true
  | t :: ts => isProper t && areProper ts

end

/-- Does the text go on with something that is neither part of a word nor of a suffix? -/
def Ends (rest : List Char) : Prop := ∀ c, rest.head? = some c → isWordChar c = false ∧ c ≠ '['

theorem Ends.nil : Ends [] := nofun

theorem Ends.comma (rest : List Char) : Ends (',' :: rest) := by
  rintro c h
  obtain rfl := Option.some.inj h
  decide

theorem Ends.close (rest : List Char) : Ends (')' :: rest) := by
  rintro c h
  obtain rfl := Option.some.inj h
  decide

theorem Ends.head?_ne (h : Ends rest) : rest.head? ≠ some '[' := fun bracket => (h _ bracket).2 rfl

theorem printItems_cons_cons (t u : TypeText) (ts : List TypeText) :
    printItems (t :: u :: ts) = print t ++ ',' :: printItems (u :: ts) := by
  rw [printItems]
  nofun

theorem head?_printAll (ss : List Suffix) (rest : List Char) :
    (Suffix.printAll ss ++ rest).head? = if ss.isEmpty then rest.head? else some '[' := by
  cases ss with
  | nil => rfl
  | cons s ss => cases s <;> simp [Suffix.printAll, Suffix.print]

/-- A word ends in front of its suffixes. -/
theorem Ends.suffixes (h : Ends rest) (ss : List Suffix) :
    ∀ c, (Suffix.printAll ss ++ rest).head? = some c → isWordChar c = false := by
  intro c first
  rw [head?_printAll] at first
  split at first
  · exact (h c first).1
  · obtain rfl := Option.some.inj first
    decide

/-- A word is read up to where no letter or digit follows. -/
theorem type?_word {name : List Char} {ss : List Suffix}
    (proper : isProper (.word name ss) = true) (ends : Ends rest) :
    type? (fuel + 1) (print (.word name ss) ++ rest) = some (.word name ss, rest) := by
  simp only [isProper, Bool.and_eq_true, Bool.not_eq_true', List.all_eq_true] at proper
  obtain ⟨⟨named, letters⟩, sizes⟩ := proper
  obtain ⟨word, more⟩ := span_append _ letters (ends.suffixes ss)
  rw [← List.append_assoc, ← print] at word more
  have steps : ss.length < (print (.word name ss) ++ rest).length + 1 := by
    have := length_le_printAll ss
    simp only [print, List.length_append]
    omega
  rw [type?]
  · simp only [word, more, named, suffixes_printAll sizes steps ends.head?_ne]
    rfl
  · intro tail opened
    obtain ⟨c, name, rfl⟩ : ∃ c cs, name = c :: cs :=
      List.exists_cons_of_ne_nil (by simpa using named)
    rw [print] at opened
    obtain rfl := (List.cons.inj opened).1
    exact absurd (letters _ List.mem_cons_self) (by decide)

mutual

/-- A tree is read back from its text, up to where the text ends. -/
theorem type?_print : ∀ (t : TypeText) (fuel : Nat) {rest : List Char}, isProper t = true →
    2 * (print t).length ≤ fuel → Ends rest → type? fuel (print t ++ rest) = some (t, rest)
  | .word name ss, fuel, rest, proper, steps, ends => by
      have named : 0 < name.length := by
        simp only [isProper, Bool.and_eq_true, Bool.not_eq_true'] at proper
        exact List.length_pos_iff.mpr (by simpa using proper.1.1)
      obtain ⟨fuel, rfl⟩ : ∃ n, fuel = n + 1 :=
        ⟨fuel - 1, by rw [print, List.length_append] at steps; omega⟩
      exact type?_word proper ends
  | .tuple [] ss, fuel, rest, proper, _, _ => by simp [isProper] at proper
  | .tuple (t :: ts) ss, fuel, rest, proper, steps, ends => by
      simp only [isProper, areProper, Bool.and_eq_true, List.all_eq_true] at proper
      obtain ⟨⟨_, first, later⟩, sizes⟩ := proper
      simp only [print, List.length_cons, List.length_append] at steps
      obtain ⟨fuel, rfl⟩ : ∃ n, fuel = n + 1 := ⟨fuel - 1, by omega⟩
      have items := items?_printItems t ts fuel (Suffix.printAll ss ++ rest) first later (by omega)
      have more : ss.length < (Suffix.printAll ss ++ rest).length + 1 := by
        have := length_le_printAll ss
        rw [List.length_append]
        omega
      simp only [print, List.cons_append, List.append_assoc, type?, items, Option.bind_eq_bind,
        Option.bind_some, suffixes_printAll sizes more ends.head?_ne]

theorem items?_printItems : ∀ (t : TypeText) (ts : List TypeText) (fuel : Nat)
    (rest : List Char), isProper t = true → areProper ts = true →
    2 * (printItems (t :: ts)).length < fuel →
    items? fuel (printItems (t :: ts) ++ ')' :: rest) = some (t :: ts, rest)
  | t, [], fuel, rest, proper, _, steps => by
      rw [printItems] at steps ⊢
      obtain ⟨fuel, rfl⟩ : ∃ n, fuel = n + 1 := ⟨fuel - 1, by omega⟩
      have first := type?_print t fuel proper (by omega) (Ends.close rest)
      simp only [items?, first, Option.bind_eq_bind, Option.bind_some]
  | t, u :: ts, fuel, rest, proper, later, steps => by
      simp only [areProper, Bool.and_eq_true] at later
      rw [printItems_cons_cons, List.length_append, List.length_cons] at steps
      obtain ⟨fuel, rfl⟩ : ∃ n, fuel = n + 1 := ⟨fuel - 1, by omega⟩
      have first := type?_print t fuel proper (by omega)
        (Ends.comma (printItems (u :: ts) ++ ')' :: rest))
      have others := items?_printItems u ts fuel rest later.1 later.2 (by omega)
      rw [printItems_cons_cons, List.append_assoc, List.cons_append]
      simp only [items?, first, others, Option.bind_eq_bind, Option.bind_some]

end

/-- A text is read as the tree it was written from. -/
theorem read?_print {t : TypeText} (proper : isProper t = true) : read? (print t) = some t := by
  have read := type?_print t (2 * (print t).length + 2) proper (by omega) Ends.nil
  rw [List.append_nil] at read
  simp [read?, read]

end TypeText

end Abi

end EthBatch
