import EthBatch.Proofs.Abi.Grammar

/-!
# What is read is a type name

The codec reads nothing but names: what it reads as a tree is the text of the tree, and in the tree
no tuple is empty and no size is zero. Each reader takes the text of what it gives from the front of
its input and leaves the rest.
-/

namespace EthBatch

namespace Number

variable {c : Char} {cs : List Char}

theorem value_lt_of_isDigit (h : c.isDigit = true) : c.toNat - '0'.toNat < 10 := by
  have high := (Char.isDigit_iff_toNat.mp h).2
  change c.toNat ≤ 57 at high
  change c.toNat - 48 < 10
  omega

theorem value_pos_of_isDigit (h : c.isDigit = true) (nonzero : c ≠ '0') :
    0 < c.toNat - '0'.toNat := by
  have low := (Char.isDigit_iff_toNat.mp h).1
  have other : c.toNat ≠ '0'.toNat := fun same => nonzero (Char.toNat_inj.mp same)
  change 48 ≤ c.toNat at low
  change c.toNat ≠ 48 at other
  change 0 < c.toNat - 48
  omega

/-- A digit is the one that is written for its value. -/
theorem digits_value (h : c.isDigit = true) : digits (c.toNat - '0'.toNat) = [c] := by
  have low := (Char.isDigit_iff_toNat.mp h).1
  change 48 ≤ c.toNat at low
  have same : Nat.digitChar (c.toNat - '0'.toNat) = c := by
    apply Char.toNat_inj.mp
    rw [Nat.toNat_digitChar_of_lt_ten (value_lt_of_isDigit h)]
    change 48 + (c.toNat - 48) = c.toNat
    omega
  rw [digits, Nat.toDigits_of_lt_base (value_lt_of_isDigit h), same]

/-- Digits behind a positive number are digits of the number that they make up together. -/
theorem digits_ofDigitChars_of_pos (h : ∀ c ∈ cs, c.isDigit = true) {n : Nat} (positive : 0 < n) :
    digits (Nat.ofDigitChars 10 cs n) = digits n ++ cs := by
  induction cs generalizing n with
  | nil => simp
  | cons c cs ih =>
      obtain ⟨first, others⟩ := List.forall_mem_cons.mp h
      have longer : digits (10 * n + (c.toNat - '0'.toNat)) = digits n ++ [c] := by
        rw [← digits_value first]
        exact (Nat.toDigits_append_toDigits (by decide) positive (value_lt_of_isDigit first)).symm
      rw [Nat.ofDigitChars_cons, ih others (by omega), longer, List.append_assoc]
      rfl

/-- Digits that do not begin with a zero are those of the number that they denote. -/
theorem digits_ofDigitChars (h : ∀ d ∈ c :: cs, d.isDigit = true) (nonzero : c ≠ '0') :
    digits (Nat.ofDigitChars 10 (c :: cs) 0) = c :: cs := by
  obtain ⟨first, others⟩ := List.forall_mem_cons.mp h
  rw [Nat.ofDigitChars_cons, Nat.mul_zero, Nat.zero_add,
    digits_ofDigitChars_of_pos others (value_pos_of_isDigit first nonzero), digits_value first]
  rfl

end Number

namespace Abi

/-- A size that is read is positive and written as it is. -/
theorem size?_eq_some {cs : List Char} {n : Nat} (h : size? cs = some n) :
    0 < n ∧ Number.digits n = cs := by
  unfold size? at h
  split at h
  · cases h
  · cases h
  · next noDigit noZero =>
    obtain ⟨c, cs, rfl⟩ := List.exists_cons_of_ne_nil noDigit
    have nonzero : c ≠ '0' := fun same => noZero cs (by rw [same])
    split at h
    · next all =>
      have isDigit : ∀ d ∈ c :: cs, d.isDigit = true := by
        intro d mem
        rw [← Number.isAsciiDigit_eq_isDigit]
        exact List.all_eq_true.mp all d mem
      have written := Number.digits_ofDigitChars isDigit nonzero
      rw [Text.natOfDigits?_of_isDigit isDigit] at h
      obtain rfl := Option.some.inj h
      refine ⟨Nat.pos_of_ne_zero fun zero => ?_, written⟩
      -- Only the digit zero is written for zero.
      rw [zero] at written
      exact nonzero (List.cons.inj written).1.symm
    · cases h

namespace TypeText

/-- Brackets that are read are a suffix. -/
theorem suffixes_bracket_eq_some {fuel : Nat} {cs rest : List Char} {ss : List Suffix}
    (h : suffixes (fuel + 1) ('[' :: cs) = some (ss, rest)) :
    ∃ s ss' more, s.isProper = true ∧ ss = s :: ss' ∧ '[' :: cs = s.print ++ more ∧
      suffixes fuel more = some (ss', rest) := by
  rw [suffixes] at h
  dsimp only at h
  have whole := @List.takeWhile_append_dropWhile _ (· ≠ ']') cs
  split at h
  · next more closed =>
    rw [closed] at whole
    generalize cs.takeWhile (· ≠ ']') = digits at h whole
    by_cases empty : digits.isEmpty = true
    · obtain rfl := List.isEmpty_iff.mp empty
      simp only [List.isEmpty_nil, if_true, Option.bind_eq_bind, Option.bind_some,
        Option.bind_eq_some_iff] at h
      obtain ⟨⟨ss', out⟩, behind, same⟩ := h
      obtain ⟨rfl, rfl⟩ := Prod.mk.inj (Option.some.inj same)
      exact ⟨.unsized, ss', more, rfl, rfl, by rw [← whole]; rfl, behind⟩
    · simp only [empty, Bool.false_eq_true, if_false, Option.bind_eq_bind, Option.bind_eq_some_iff,
        Option.map_eq_some_iff] at h
      obtain ⟨s, ⟨n, size, rfl⟩, ⟨ss', out⟩, behind, same⟩ := h
      obtain ⟨rfl, rfl⟩ := Prod.mk.inj (Option.some.inj same)
      obtain ⟨positive, rfl⟩ := size?_eq_some size
      refine ⟨.sized n, ss', more, decide_eq_true positive, rfl, ?_, behind⟩
      rw [← whole, Suffix.print]
      simp
  · cases h

/-- Suffixes are read from the front of a text. -/
theorem suffixes_eq_some {fuel : Nat} {cs rest : List Char} {ss : List Suffix}
    (h : suffixes fuel cs = some (ss, rest)) :
    (∀ s ∈ ss, s.isProper = true) ∧ cs = Suffix.printAll ss ++ rest := by
  induction fuel generalizing cs ss with
  | zero => cases h
  | succ fuel ih =>
      by_cases opened : ∃ inner, cs = '[' :: inner
      · obtain ⟨inner, rfl⟩ := opened
        obtain ⟨s, ss', more, proper, rfl, here, behind⟩ := suffixes_bracket_eq_some h
        obtain ⟨others, rfl⟩ := ih behind
        refine ⟨List.forall_mem_cons.mpr ⟨proper, others⟩, ?_⟩
        rw [here, Suffix.printAll_cons, List.append_assoc]
      · rw [suffixes] at h
        · obtain ⟨rfl, rfl⟩ := Prod.mk.inj (Option.some.inj h)
          exact ⟨List.forall_mem_nil _, rfl⟩
        · exact fun inner here => opened ⟨inner, here⟩

mutual

/-- A type is read from the front of a text. -/
theorem type?_eq_some : ∀ (fuel : Nat) {cs rest : List Char} {t : TypeText},
    type? fuel cs = some (t, rest) → isProper t = true ∧ cs = print t ++ rest
  | 0, _, _, _, h => by cases h
  | fuel + 1, cs, rest, t, h => by
      by_cases opened : ∃ inner, cs = '(' :: inner
      · obtain ⟨inner, rfl⟩ := opened
        simp only [type?, Option.bind_eq_bind, Option.bind_eq_some_iff] at h
        obtain ⟨⟨ts, more⟩, read, ⟨ss, out⟩, sizes, same⟩ := h
        obtain ⟨rfl, rfl⟩ := Prod.mk.inj (Option.some.inj same)
        obtain ⟨some, items, rfl⟩ := items?_eq_some fuel read
        obtain ⟨proper, rfl⟩ := suffixes_eq_some sizes
        refine ⟨?_, ?_⟩
        · rw [isProper, items, List.all_eq_true.mpr proper]
          simpa using some
        · simp [print]
      · rw [type?] at h
        · cases named : (cs.takeWhile isWordChar).isEmpty with
          | true => simp [named] at h
          | false =>
              simp only [named, Bool.false_eq_true, if_false, Option.bind_eq_bind,
                Option.bind_eq_some_iff] at h
              obtain ⟨⟨ss, out⟩, sizes, same⟩ := h
              obtain ⟨rfl, rfl⟩ := Prod.mk.inj (Option.some.inj same)
              obtain ⟨proper, behind⟩ := suffixes_eq_some sizes
              refine ⟨?_, ?_⟩
              · rw [isProper, named, List.all_takeWhile, List.all_eq_true.mpr proper]
                rfl
              · rw [print, List.append_assoc, ← behind, List.takeWhile_append_dropWhile]
        · exact fun inner here => opened ⟨inner, here⟩

/-- The items of a tuple are read up to the parenthesis that closes it. -/
theorem items?_eq_some : ∀ (fuel : Nat) {cs rest : List Char} {ts : List TypeText},
    items? fuel cs = some (ts, rest) →
    ts ≠ [] ∧ areProper ts = true ∧ cs = printItems ts ++ ')' :: rest
  | 0, _, _, _, h => by cases h
  | fuel + 1, cs, rest, ts, h => by
      simp only [items?, Option.bind_eq_bind, Option.bind_eq_some_iff] at h
      obtain ⟨⟨t, behind⟩, read, h⟩ := h
      obtain ⟨proper, rfl⟩ := type?_eq_some fuel read
      dsimp only at h
      split at h
      · next more =>
        simp only [Option.bind_eq_some_iff] at h
        obtain ⟨⟨us, out⟩, read', same⟩ := h
        obtain ⟨rfl, rfl⟩ := Prod.mk.inj (Option.some.inj same)
        obtain ⟨some, others, rfl⟩ := items?_eq_some fuel read'
        refine ⟨nofun, by rw [areProper, proper, others]; rfl, ?_⟩
        obtain ⟨u, us, rfl⟩ := List.exists_cons_of_ne_nil some
        rw [printItems_cons_cons, List.append_assoc, List.cons_append]
      · next more =>
        obtain ⟨rfl, rfl⟩ := Prod.mk.inj (Option.some.inj h)
        exact ⟨nofun, by rw [areProper, areProper, proper]; rfl, by rw [printItems]⟩
      · cases h

end

/-- The texts that are read are those of proper trees. -/
theorem read?_eq_some_iff {cs : List Char} {t : TypeText} :
    read? cs = some t ↔ isProper t = true ∧ print t = cs := by
  constructor
  · intro h
    simp only [read?, Option.bind_eq_bind, Option.bind_eq_some_iff] at h
    obtain ⟨⟨u, rest⟩, read, h⟩ := h
    obtain ⟨proper, rfl⟩ := type?_eq_some _ read
    split at h
    · next whole =>
      obtain rfl := Option.some.inj h
      obtain rfl := List.isEmpty_iff.mp whole
      exact ⟨proper, by rw [List.append_nil]⟩
    · cases h
  · rintro ⟨proper, rfl⟩
    exact read?_print proper

end TypeText

end Abi

end EthBatch
