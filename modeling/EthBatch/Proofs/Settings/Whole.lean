import EthBatch.Proofs.Number
import EthBatch.Settings.Field

/-!
# Whole numbers that are given as text

A number that is given as text may have zeros in front, a fraction of zeros, and underscores almost
anywhere among the zeros. Digits in groups mean the same number as in the environment, except that a
negative one must not begin with a zero.
-/

namespace EthBatch.Settings.Field

open Number

variable {c : Char} {cs ds : List Char} {n : Nat}

/-! ## Underscores -/

theorem exists_of_doubled (h : withoutUnderscores?.doubled cs = true) :
    ∃ before after, cs = before ++ '_' :: '_' :: after := by
  induction cs using withoutUnderscores?.doubled.induct with
  | case1 after => exact ⟨[], after, rfl⟩
  | case2 c rest first ih =>
      rw [withoutUnderscores?.doubled] at h
      · obtain ⟨before, after, rfl⟩ := ih h
        exact ⟨c :: before, after, rfl⟩
      · exact first
  | case3 => cases h

theorem withoutUnderscores?_eq_some (h : withoutUnderscores? cs = some ds) :
    ds = ungrouped cs ∧ '_' ∈ cs ∧ cs.head? ≠ some '_' := by
  rw [withoutUnderscores?] at h
  split at h
  · cases h
  · next inner =>
    simp only [Bool.or_eq_true, decide_eq_true_eq, Bool.not_eq_true', not_or, Bool.not_eq_false]
      at inner
    obtain ⟨⟨⟨first, _⟩, _⟩, mem⟩ := inner
    exact ⟨(Option.some.inj h).symm, by simpa using mem, first⟩

/-- Groups of digits are read without their underscores. -/
theorem withoutUnderscores?_of_grouped (h : Grouped isAsciiDigit cs) :
    withoutUnderscores? cs = if '_' ∈ cs then some (ungrouped cs) else none := by
  by_cases mem : '_' ∈ cs
  · have first : cs.head? ≠ some '_' := by
      intro first
      obtain ⟨rest, rfl⟩ := List.head?_eq_some_iff.mp first
      exact h.head rfl
    have last : cs.getLast? ≠ some '_' := by
      intro last
      obtain ⟨front, rfl⟩ := List.getLast?_eq_some_iff.mp last
      exact h.last rfl
    have single : withoutUnderscores?.doubled cs = false := by
      rw [Bool.eq_false_iff]
      intro doubled
      obtain ⟨before, after, rfl⟩ := exists_of_doubled doubled
      obtain ⟨_, d, _, same, digit⟩ := h before ('_' :: after) rfl
      obtain ⟨rfl, _⟩ := List.cons.inj same
      exact absurd digit (by decide)
    rw [withoutUnderscores?, if_pos mem, if_neg (by simp [first, last, single, mem])]
    rfl
  · rw [withoutUnderscores?, if_neg mem, if_pos (by simp [mem])]

theorem getD_withoutUnderscores? (h : Grouped isAsciiDigit cs) :
    (withoutUnderscores? cs).getD cs = ungrouped cs := by
  rw [withoutUnderscores?_of_grouped h]
  split
  · rfl
  · next none => exact (ungrouped_eq_self none).symm

/-! ## Zeros in front -/

/-- The text consists of digits and underscores. -/
def IsRun (cs : List Char) : Prop := ∀ c ∈ cs, isAsciiDigit c = true ∨ c = '_'

/-- The text is a zero, or begins with another digit. -/
def IsShortened (cs : List Char) : Prop :=
  cs = ['0'] ∨ ∃ c rest, cs = c :: rest ∧ isAsciiDigit c = true ∧ c ≠ '0'

theorem go_of_zero {last : Char} (zero : c = '0' ∨ c = '_') (cs : List Char) :
    dropLeadingZeros?.go last (c :: cs) = dropLeadingZeros?.go c cs := by
  rcases zero with rfl | rfl <;> rfl

theorem go_of_ne {last : Char} (other : ¬ (c = '0' ∨ c = '_')) (point : c ≠ '.')
    (cs : List Char) : dropLeadingZeros?.go last (c :: cs) =
      if isAsciiDigit c then some (c :: cs) else none := by
  obtain ⟨notZero, notMark⟩ := not_or.mp other
  rw [dropLeadingZeros?.go]
  · exact notZero
  · exact notMark
  · exact point

theorem exists_go {last : Char} (lead : last = '0' ∨ last = '_') (run : IsRun cs)
    (ends : ∀ front, last :: cs ≠ front ++ ['_']) : ∃ zeros rest, last :: cs = zeros ++ rest ∧
      dropLeadingZeros?.go last cs = some rest ∧ (∀ c ∈ zeros, c = '0' ∨ c = '_') ∧
      IsShortened rest := by
  induction cs generalizing last with
  | nil =>
      obtain rfl : last = '0' := lead.resolve_right fun same => ends [] (by rw [same]; rfl)
      exact ⟨[], ['0'], rfl, rfl, nofun, .inl rfl⟩
  | cons c cs ih =>
      obtain ⟨first, others⟩ := List.forall_mem_cons.mp run
      by_cases zero : c = '0' ∨ c = '_'
      · -- A zero or an underscore takes the place of the one before it.
        obtain ⟨zeros, rest, split, read, all, short⟩ := ih zero others fun front same =>
          ends (last :: front) (by rw [same]; rfl)
        refine ⟨last :: zeros, rest, by rw [split]; rfl, (go_of_zero zero cs).trans read, ?_, short⟩
        exact List.forall_mem_cons.mpr ⟨lead, all⟩
      · obtain ⟨notZero, notMark⟩ := not_or.mp zero
        have digit : isAsciiDigit c = true := first.resolve_right notMark
        have point : c ≠ '.' := by
          rintro rfl
          cases digit
        refine ⟨[last], c :: cs, rfl, ?_, by simpa using lead, .inr ⟨c, cs, rfl, digit, notZero⟩⟩
        rw [go_of_ne zero point, if_pos digit]

/-- Nothing but zeros and underscores is left out in front of digits. -/
theorem exists_dropLeadingZeros? (run : IsRun cs) (grouped : Grouped isAsciiDigit cs)
    (some : cs ≠ []) : ∃ zeros rest, cs = zeros ++ rest ∧ dropLeadingZeros? cs = .some rest ∧
      (∀ c ∈ zeros, c = '0' ∨ c = '_') ∧ IsShortened rest := by
  obtain ⟨c, cs, rfl⟩ := List.exists_cons_of_ne_nil some
  by_cases zero : c = '0'
  · subst zero
    exact exists_go (.inl rfl) (List.forall_mem_cons.mp run).2 fun front same =>
      Grouped.last (same ▸ grouped) rfl
  · have digit : isAsciiDigit c = true :=
      ((List.forall_mem_cons.mp run).1).resolve_right grouped.head
    refine ⟨[], c :: cs, rfl, ?_, nofun, .inr ⟨c, cs, rfl, digit, zero⟩⟩
    rw [dropLeadingZeros?]
    rintro rest same
    exact zero (List.cons.inj same).1

/-! ## A sign and digits -/

/-- A minus is split off. -/
def unminus (cs : List Char) : Bool × List Char :=
  match cs with
  | '-' :: rest => (true, rest)
  | _ => (false, cs)

/-- Reads the digits of a number whose sign is known. -/
def plainDigits (negative : Bool) (digits : List Char) : Except Problem Int :=
  let run := digits.takeWhile isAsciiDigit
  if run.head? = some '0' && 1 < run.length then .error .intParsing
  else if maxDigits < run.length then .error .intParsingSize
  else if digits.isEmpty || run.length ≠ digits.length then .error .intParsing
  else match Text.natOfDigits? digits with
    | some n => .ok (withSign negative n)
    | none => .error .intParsing

theorem plainInt_eq (cs : List Char) : plainInt cs = plainDigits (unminus cs).1 (unminus cs).2 :=
  rfl

theorem ne_minus_of_isAsciiDigit (h : isAsciiDigit c = true) : c ≠ '-' := by
  rintro rfl
  cases h

theorem unminus_of_ne (h : ∀ rest, cs ≠ '-' :: rest) : unminus cs = (false, cs) := by
  unfold unminus
  split
  · next rest => exact absurd rfl (h rest)
  · rfl

/-- There are further digits behind a zero. -/
def HasLeadingZero (cs : List Char) : Prop := cs.head? = some '0' ∧ 1 < cs.length

instance (cs : List Char) : Decidable (HasLeadingZero cs) :=
  inferInstanceAs (Decidable (_ ∧ _))

/-- Digits are read if none is a zero in front, and if they are not too many. -/
theorem plainDigits_of_all {negative : Bool} (digits : ∀ c ∈ ds, isAsciiDigit c = true)
    (some : ds ≠ []) (value : Text.natOfDigits? ds = .some n) :
    plainDigits negative ds =
      if HasLeadingZero ds then .error .intParsing
      else if maxDigits < ds.length then .error .intParsingSize
      else .ok (withSign negative n) := by
  have run : ds.takeWhile isAsciiDigit = ds := List.takeWhile_eq_self_iff.mpr digits
  have zero : (ds.head? = .some '0' && 1 < ds.length : Bool) = decide (HasLeadingZero ds) :=
    (Bool.decide_and _ _).symm
  simp [plainDigits, run, value, some, zero]

/-- What is read are digits. -/
theorem isAsciiDigit_of_plainDigits {negative : Bool} {i : Int}
    (h : plainDigits negative ds = .ok i) : ds ≠ [] ∧ ∀ c ∈ ds, isAsciiDigit c = true := by
  simp only [plainDigits] at h
  split at h
  · cases h
  · split at h
    · cases h
    · split at h
      · cases h
      · next whole =>
        simp only [Bool.or_eq_true, List.isEmpty_iff, decide_eq_true_eq, ne_eq, not_or,
          Decidable.not_not] at whole
        refine ⟨whole.1, List.takeWhile_eq_self_iff.mp ?_⟩
        exact (List.takeWhile_prefix _).eq_of_length whole.2

/-! ## From the sign to the digits -/

/-- The text behind a plus and without its leading zeros. -/
def body? : List Char → Option (List Char)
  | '+' :: '-' :: _ => none
  | '+' :: rest => dropLeadingZeros? rest
  | cs => dropLeadingZeros? cs

theorem body?_plus (h : ∀ rest, cs ≠ '-' :: rest) : body? ('+' :: cs) = dropLeadingZeros? cs := by
  rw [body?]
  exact h

theorem body?_of_ne (h : ∀ rest, cs ≠ '+' :: rest) : body? cs = dropLeadingZeros? cs := by
  rw [body?]
  · exact fun rest => h ('-' :: rest)
  · exact h

/-- The text without a fraction of zeros and without its underscores. -/
def plain (cs : List Char) : List Char :=
  (withoutUnderscores? (dropZeroFraction cs)).getD (dropZeroFraction cs)

theorem intOfChars_eq (trimmed : Text.IsTrimmed cs) : intOfChars cs =
    match body? cs with
    | none => .error .intParsing
    | some body => plainInt (plain body) := by
  rw [intOfChars, trimmed.trimBy_isSpace]
  rfl

theorem dropZeroFraction_eq_self (h : '.' ∉ cs) : dropZeroFraction cs = cs := by
  have none : cs.dropWhile (· ≠ '.') = [] := by
    rw [List.dropWhile_eq_nil_iff]
    intro c mem
    exact decide_eq_true fun same => h (same ▸ mem)
  rw [dropZeroFraction, none]
  rfl

theorem plain_of_grouped (h : '.' ∉ cs) (grouped : Grouped isAsciiDigit cs) :
    plain cs = ungrouped cs := by
  rw [plain, dropZeroFraction_eq_self h, getD_withoutUnderscores? grouped]

theorem IsRun.not_mem_point (h : IsRun cs) : '.' ∉ cs := by
  intro mem
  rcases h '.' mem with digit | same
  · cases digit
  · cases same

theorem IsRun.isAsciiDigit (h : IsRun cs) : ∀ c ∈ ungrouped cs, isAsciiDigit c = true := by
  intro c mem
  obtain ⟨mem, other⟩ := mem_ungrouped.mp mem
  exact (h c mem).resolve_right other

theorem ungrouped_ne_nil (grouped : Grouped isAsciiDigit cs) (some : cs ≠ []) :
    ungrouped cs ≠ [] := by
  obtain ⟨c, cs, rfl⟩ := List.exists_cons_of_ne_nil some
  rw [ungrouped_cons grouped.head]
  exact List.cons_ne_nil _ _

/-- It does not matter to a zero in front whether the digits behind it are grouped. -/
theorem hasLeadingZero_ungrouped (grouped : Grouped isAsciiDigit cs) :
    HasLeadingZero (ungrouped cs) ↔ HasLeadingZero cs := by
  cases cs with
  | nil => rfl
  | cons c cs =>
      have more : 0 < (ungrouped cs).length ↔ 0 < cs.length := by
        rw [List.length_pos_iff, List.length_pos_iff]
        cases cs using List.reverseRecOn with
        | nil => rfl
        | append_singleton front d =>
            have last : d ≠ '_' := @Grouped.last _ d (c :: front) grouped
            rw [ungrouped_append, ungrouped_cons last]
            simp
      rw [ungrouped_cons grouped.head, HasLeadingZero, HasLeadingZero]
      simp only [List.head?_cons, List.length_cons, Nat.lt_add_left_iff_pos, more]

theorem IsShortened.not_hasLeadingZero (h : IsShortened cs) : ¬ HasLeadingZero cs := by
  rcases h with rfl | ⟨c, rest, rfl, _, other⟩
  · decide
  · exact fun zero => other (Option.some.inj zero.1)

theorem IsShortened.ne_nil (h : IsShortened cs) : cs ≠ [] := by
  rcases h with rfl | ⟨c, rest, rfl, _⟩
  · nofun
  · nofun

theorem IsShortened.ne_underscore (h : IsShortened cs) (rest : List Char) : cs ≠ '_' :: rest := by
  rcases h with rfl | ⟨c, tail, rfl, digit, _⟩
  · nofun
  · intro same
    rw [(List.cons.inj same).1] at digit
    cases digit

/-- Digits in groups mean a number, and they are not too many. -/
structure Means (ds : List Char) (n : Nat) : Prop where
  run : IsRun ds
  grouped : Grouped isAsciiDigit ds
  nonempty : ds ≠ []
  small : (ungrouped ds).length ≤ maxDigits
  value : Text.natOfDigits? (ungrouped ds) = .some n

theorem Means.plainDigits (h : Means ds n) (negative : Bool) :
    plainDigits negative (ungrouped ds) =
      if HasLeadingZero ds then .error .intParsing else .ok (withSign negative n) := by
  rw [plainDigits_of_all h.run.isAsciiDigit (ungrouped_ne_nil h.grouped h.nonempty) h.value,
    if_neg (Nat.not_lt_of_le h.small)]
  exact if_congr (hasLeadingZero_ungrouped h.grouped) rfl rfl

/-- Zeros in front make no difference to a number without a minus. -/
theorem Means.exists_body (h : Means ds n) :
    ∃ body, dropLeadingZeros? ds = some body ∧ plainInt (plain body) = .ok n := by
  obtain ⟨run, grouped, nonempty, small, value⟩ := h
  obtain ⟨zeros, body, rfl, read, lead, short⟩ := exists_dropLeadingZeros? run grouped nonempty
  have zerosOnly : ∀ c ∈ ungrouped zeros, c = '0' := by
    intro c mem
    obtain ⟨mem, other⟩ := mem_ungrouped.mp mem
    exact (lead c mem).resolve_right other
  rw [ungrouped_append] at small value
  have means : Means body n :=
    { run := fun c mem => run c (List.mem_append_right _ mem)
      grouped := grouped.suffix zeros short.ne_underscore
      nonempty := short.ne_nil
      small := Nat.le_trans (by simp) small
      value := (Text.natOfDigits?_zeros_append zerosOnly _).symm.trans value }
  have unsigned : unminus (ungrouped body) = (false, ungrouped body) := by
    apply unminus_of_ne
    intro rest same
    exact ne_minus_of_isAsciiDigit (means.run.isAsciiDigit '-' (same ▸ List.mem_cons_self)) rfl
  refine ⟨body, read, ?_⟩
  rw [plain_of_grouped means.run.not_mem_point means.grouped, plainInt_eq, unsigned,
    means.plainDigits, if_neg short.not_hasLeadingZero]
  rfl

/-- A number without a minus may begin with zeros. A negative one must not, unless it is zero. -/
theorem Means.intOfChars (trimmed : Text.IsTrimmed cs) (h : Means (signed cs).2 n) :
    intOfChars cs =
      if (signed cs).1 = true ∧ HasLeadingZero (signed cs).2 then .error .intParsing
      else .ok (withSign (signed cs).1 n) := by
  rw [intOfChars_eq trimmed]
  rcases signed_cases cs with ⟨ds, rfl, same⟩ | ⟨ds, rfl, same⟩ | ⟨same, noMinus, noPlus⟩
  · rw [same] at h ⊢
    have joined : Grouped isAsciiDigit ('-' :: ds) :=
      (grouped_signed_iff (by decide) (by decide) (by decide)).mp (same ▸ h.grouped)
    have noPoint : '.' ∉ '-' :: ds := by
      simpa using h.run.not_mem_point
    have body : body? ('-' :: ds) = some ('-' :: ds) := rfl
    have opened : unminus ('-' :: ungrouped ds) = (true, ungrouped ds) := rfl
    rw [body]
    dsimp only
    rw [plain_of_grouped noPoint joined, ungrouped_cons (by decide), plainInt_eq, opened,
      h.plainDigits]
    simp only [true_and]
  · rw [same] at h ⊢
    obtain ⟨body, read, meant⟩ := h.exists_body
    have unsigned : ∀ rest, ds ≠ '-' :: rest := by
      rintro rest rfl
      rcases h.run '-' List.mem_cons_self with digit | same
      · cases digit
      · cases same
    rw [body?_plus unsigned, read]
    exact meant
  · rw [same] at h ⊢
    obtain ⟨body, read, meant⟩ := h.exists_body
    rw [body?_of_ne noPlus, read]
    exact meant

/-! ## What numbers are written with -/

/-- A digit, an underscore or a point. -/
def IsPart (c : Char) : Prop := isAsciiDigit c = true ∨ c = '_' ∨ c = '.'

/-- There is something behind a minus, and it consists of digits, underscores and points. -/
def IsBody (cs : List Char) : Prop := (unminus cs).2 ≠ [] ∧ ∀ c ∈ (unminus cs).2, IsPart c

theorem IsPart.small (h : IsPart c) : c.toNat < 128 := by
  rcases h with digit | rfl | rfl
  · exact (isPlain_of_isAsciiDigit digit).1
  · decide
  · decide

theorem isPart_of_ungrouped (h : ∀ c ∈ ungrouped cs, IsPart c) : ∀ c ∈ cs, IsPart c := by
  intro c mem
  by_cases mark : c = '_'
  · exact .inr (.inl mark)
  · exact h c (mem_ungrouped.mpr ⟨mem, mark⟩)

theorem isBody_cons_iff : IsBody (c :: cs) ↔
    if c = '-' then cs ≠ [] ∧ ∀ d ∈ cs, IsPart d else ∀ d ∈ c :: cs, IsPart d := by
  split
  · next same =>
    rw [same]
    rfl
  · next other =>
    rw [IsBody, unminus_of_ne fun rest same => other (List.cons.inj same).1]
    simp

theorem not_isBody_nil : ¬ IsBody [] := fun h => h.1 rfl

theorem isBody_of_plainInt {i : Int} (h : plainInt cs = .ok i) : IsBody cs := by
  rw [plainInt_eq] at h
  obtain ⟨some, digits⟩ := isAsciiDigit_of_plainDigits h
  exact ⟨some, fun c mem => .inl (digits c mem)⟩

theorem IsBody.append (h : IsBody cs) (rest : ∀ c ∈ ds, IsPart c) : IsBody (cs ++ ds) := by
  cases cs with
  | nil => exact absurd h not_isBody_nil
  | cons c cs =>
      rw [isBody_cons_iff] at h
      rw [List.cons_append, isBody_cons_iff]
      split at h
      · next minus =>
        rw [if_pos minus]
        exact ⟨by simp [h.1], List.forall_mem_append.mpr ⟨h.2, rest⟩⟩
      · next other =>
        rw [if_neg other, ← List.cons_append]
        exact List.forall_mem_append.mpr ⟨h, rest⟩

theorem isBody_of_ungrouped (h : IsBody (ungrouped cs)) (first : cs.head? ≠ some '_') :
    IsBody cs := by
  cases cs with
  | nil => exact h
  | cons c cs =>
      rw [ungrouped_cons (by simpa using first), isBody_cons_iff] at h
      rw [isBody_cons_iff]
      split at h
      · next minus =>
        rw [if_pos minus]
        refine ⟨?_, isPart_of_ungrouped h.2⟩
        rintro rfl
        exact h.1 rfl
      · next other =>
        rw [if_neg other]
        obtain ⟨here, rest⟩ := List.forall_mem_cons.mp h
        exact List.forall_mem_cons.mpr ⟨here, isPart_of_ungrouped rest⟩

theorem isBody_of_dropZeroFraction (h : IsBody (dropZeroFraction cs)) : IsBody cs := by
  rw [dropZeroFraction] at h
  split at h
  · next zeros =>
    rw [← @List.takeWhile_append_dropWhile _ (· ≠ '.') cs]
    apply h.append
    cases behind : cs.dropWhile (· ≠ '.') with
    | nil => nofun
    | cons c fraction =>
        rw [behind, List.drop_one, List.tail_cons] at zeros
        simp only [Bool.and_eq_true, List.all_eq_true, beq_iff_eq] at zeros
        have point : c = '.' := by
          have stops := List.head?_dropWhile_not (· ≠ '.') cs
          rw [behind] at stops
          simpa using stops
        refine List.forall_mem_cons.mpr ⟨.inr (.inr point), ?_⟩
        intro d mem
        rw [zeros.2 d mem]
        exact .inl rfl
  · exact h

theorem isBody_of_plain (h : IsBody (plain cs)) : IsBody cs := by
  apply isBody_of_dropZeroFraction
  rw [plain] at h
  cases read : withoutUnderscores? (dropZeroFraction cs) with
  | none => rwa [read] at h
  | some ds =>
      obtain ⟨rfl, _, first⟩ := withoutUnderscores?_eq_some read
      rw [read] at h
      exact isBody_of_ungrouped h first

theorem isPart_of_go {last : Char} (lead : last = '0' ∨ last = '_')
    (read : dropLeadingZeros?.go last cs = some ds) (h : IsBody ds) : ∀ c ∈ cs, IsPart c := by
  induction cs generalizing last with
  | nil => nofun
  | cons c cs ih =>
      by_cases zero : c = '0' ∨ c = '_'
      · rw [go_of_zero zero] at read
        refine List.forall_mem_cons.mpr ⟨?_, ih zero read⟩
        rcases zero with rfl | rfl
        · exact .inl rfl
        · exact .inr (.inl rfl)
      · by_cases point : c = '.'
        · subst point
          obtain rfl := Option.some.inj read
          rw [isBody_cons_iff, if_neg (by rcases lead with rfl | rfl <;> decide)] at h
          exact (List.forall_mem_cons.mp h).2
        · rw [go_of_ne zero point] at read
          split at read
          · next digit =>
            obtain rfl := Option.some.inj read
            rwa [isBody_cons_iff, if_neg (ne_minus_of_isAsciiDigit digit)] at h
          · cases read

theorem isBody_of_dropLeadingZeros? (read : dropLeadingZeros? cs = some ds) (h : IsBody ds) :
    IsBody cs := by
  unfold dropLeadingZeros? at read
  split at read
  · next rest =>
    rw [isBody_cons_iff, if_neg (by decide)]
    exact List.forall_mem_cons.mpr ⟨.inl rfl, isPart_of_go (.inl rfl) read h⟩
  · obtain rfl := Option.some.inj read
    exact h

theorem IsBody.forall_isPart (h : IsBody cs) (unsigned : ∀ rest, cs ≠ '-' :: rest) :
    cs ≠ [] ∧ ∀ c ∈ cs, IsPart c := by
  rwa [IsBody, unminus_of_ne unsigned] at h

/-- A number has a sign at most, and then digits, underscores and points. -/
theorem isPart_of_intOfChars (trimmed : Text.IsTrimmed cs) {i : Int} (h : intOfChars cs = .ok i) :
    (signed cs).2 ≠ [] ∧ ∀ c ∈ (signed cs).2, IsPart c := by
  rw [intOfChars_eq trimmed] at h
  cases read : body? cs with
  | none =>
      rw [read] at h
      cases h
  | some body =>
      rw [read] at h
      have isBody : IsBody body := isBody_of_plain (isBody_of_plainInt h)
      rcases signed_cases cs with ⟨ds, rfl, same⟩ | ⟨ds, rfl, same⟩ | ⟨same, noMinus, noPlus⟩
      · rw [same]
        rw [body?_of_ne (by simp)] at read
        exact isBody_of_dropLeadingZeros? read isBody
      · rw [same]
        have unsigned : ∀ rest, ds ≠ '-' :: rest := by
          rintro rest rfl
          cases read
        rw [body?_plus unsigned] at read
        exact (isBody_of_dropLeadingZeros? read isBody).forall_isPart unsigned
      · rw [same]
        rw [body?_of_ne noPlus] at read
        exact (isBody_of_dropLeadingZeros? read isBody).forall_isPart noMinus

/-! ## The same number from the environment -/

theorem IsRun.small (run : IsRun cs) : ∀ c ∈ cs, c.toNat < 128 := by
  intro c mem
  rcases run c mem with digit | rfl
  · exact (isPlain_of_isAsciiDigit digit).1
  · decide

/-- The digits of a number are those that are not underscores. -/
theorem countP_isAsciiDigit (run : IsRun (signed cs).2) :
    cs.countP isAsciiDigit = (ungrouped (signed cs).2).length := by
  obtain ⟨sign, split, only⟩ := exists_sign cs
  have none : sign.countP isAsciiDigit = 0 := by
    rw [List.countP_eq_zero]
    intro c mem
    rcases only c mem with rfl | rfl <;> decide
  have digits : (signed cs).2.countP isAsciiDigit = (ungrouped (signed cs).2).length := by
    rw [ungrouped, ← List.countP_eq_length_filter]
    apply List.countP_congr
    intro c mem
    rcases run c mem with digit | rfl
    · simp [digit, (isPlain_of_isAsciiDigit digit).2]
    · decide
  calc cs.countP isAsciiDigit = (sign ++ (signed cs).2).countP isAsciiDigit := by rw [← split]
    _ = (ungrouped (signed cs).2).length := by rw [List.countP_append, none, digits, Nat.zero_add]

/-- A number in a variable has no point, all its underscores stand between two digits, and its
digits are not too many. -/
structure SuitsVariable (cs : List Char) : Prop where
  noPoint : '.' ∉ cs
  grouped : Grouped isAsciiDigit cs
  small : cs.countP isAsciiDigit ≤ maxDigits

/-- A number that is given has ASCII digits, and no zero between a minus and other digits. -/
structure SuitsSetting (cs : List Char) : Prop where
  ascii : ∀ c ∈ cs, c.toNat < 128
  noZero : ¬ ((signed cs).1 = true ∧ HasLeadingZero (signed cs).2)

/-- A number from a variable is written in groups of digits. -/
theorem exists_means_of_whole? (trimmed : Text.IsTrimmed cs) {i : Int}
    (ascii : ∀ c ∈ cs, c.toNat < 128) (h : whole? cs = some i) :
    ∃ n, Means (signed cs).2 n ∧ withSign (signed cs).1 n = i := by
  obtain ⟨n, read, sign⟩ := (whole?_eq_some_iff trimmed).mp h
  obtain ⟨grouped, some, small, value⟩ := natural?_eq_some_iff.mp read
  have same : ∀ c ∈ (signed cs).2, isDecimal c = isAsciiDigit c := fun c mem =>
    isDecimal_of_lt (ascii c (mem_of_mem_signed mem))
  have run : IsRun (signed cs).2 := by
    intro c mem
    by_cases mark : c = '_'
    · exact .inr mark
    · refine .inl ((same c mem).symm.trans ?_)
      exact Text.isSome_decimal?_of_natOfDigits? value c (mem_ungrouped.mpr ⟨mem, mark⟩)
  have nonempty : (signed cs).2 ≠ [] := by
    intro none
    rw [none] at some
    exact some rfl
  exact ⟨n, ⟨run, grouped.congr same, nonempty, small, value⟩, sign⟩

theorem Means.suitsVariable {n : Nat} (h : Means (signed cs).2 n) : SuitsVariable cs where
  noPoint := by
    intro point
    rcases mem_signed point with (same | same) | mem
    · cases same
    · cases same
    · exact h.run.not_mem_point mem
  grouped := (grouped_signed_iff (by decide) (by decide) (by decide)).mp h.grouped
  small := by
    rw [countP_isAsciiDigit h.run]
    exact h.small

/-- A number that is given has ASCII characters only. -/
theorem small_of_intOfChars (trimmed : Text.IsTrimmed cs) {i : Int} (h : intOfChars cs = .ok i) :
    ∀ c ∈ cs, c.toNat < 128 := by
  intro c mem
  rcases mem_signed mem with (rfl | rfl) | mem
  · decide
  · decide
  · exact ((isPart_of_intOfChars trimmed h).2 c mem).small

/-- A number that is given is the same one in a variable if it is written as that wants it. -/
theorem whole?_of_intOfChars (trimmed : Text.IsTrimmed cs) {i : Int} (suits : SuitsVariable cs)
    (h : intOfChars cs = .ok i) : whole? cs = some i := by
  obtain ⟨some, parts⟩ := isPart_of_intOfChars trimmed h
  have run : IsRun (signed cs).2 := by
    intro c mem
    refine (parts c mem).imp_right fun other => other.resolve_right ?_
    rintro rfl
    exact suits.noPoint (mem_of_mem_signed mem)
  have grouped := (grouped_signed_iff (by decide) (by decide) (by decide)).mpr suits.grouped
  have small := countP_isAsciiDigit run ▸ suits.small
  have value := @Text.natOfDigits?_of_isDigit (ungrouped (signed cs).2) fun c mem =>
    (isAsciiDigit_eq_isDigit c).symm.trans (run.isAsciiDigit c mem)
  have means : Means (signed cs).2 _ := ⟨run, grouped, some, small, value⟩
  rw [means.intOfChars trimmed] at h
  split at h
  · cases h
  · rw [← Except.ok.inj h]
    apply (whole?_eq_some_iff trimmed).mpr
    refine ⟨_, natural?_eq_some_iff.mpr ⟨?_, ungrouped_ne_nil grouped some, small, value⟩, rfl⟩
    exact grouped.congr fun c mem =>
      (isDecimal_of_lt (run.small c mem)).symm

/-- A number from a variable is the same one if it is given and written as that wants it. -/
theorem intOfChars_of_whole? (trimmed : Text.IsTrimmed cs) {i : Int} (suits : SuitsSetting cs)
    (h : whole? cs = some i) : intOfChars cs = .ok i := by
  obtain ⟨n, means, rfl⟩ := exists_means_of_whole? trimmed suits.ascii h
  rw [means.intOfChars trimmed, if_neg suits.noZero]

/-- A text is read as the same number in both ways if and only if, wherever one way reads it, it is
written as the other way wants it. -/
theorem whole?_iff_intOfChars (trimmed : Text.IsTrimmed cs) :
    (∀ i, whole? cs = some i ↔ intOfChars cs = .ok i) ↔
      ((∃ i, intOfChars cs = .ok i) → SuitsVariable cs) ∧
      ((∃ i, whole? cs = some i) → SuitsSetting cs) := by
  constructor
  · intro same
    constructor
    · rintro ⟨i, given⟩
      obtain ⟨n, means, _⟩ := exists_means_of_whole? trimmed (small_of_intOfChars trimmed given)
        ((same i).mpr given)
      exact means.suitsVariable
    · rintro ⟨i, read⟩
      have given := (same i).mp read
      have ascii := small_of_intOfChars trimmed given
      refine ⟨ascii, fun zero => ?_⟩
      obtain ⟨n, means, _⟩ := exists_means_of_whole? trimmed ascii read
      rw [means.intOfChars trimmed, if_pos zero] at given
      cases given
  · rintro ⟨suitsVariable, suitsSetting⟩ i
    constructor
    · exact fun read => intOfChars_of_whole? trimmed (suitsSetting ⟨i, read⟩) read
    · exact fun given => whole?_of_intOfChars trimmed (suitsVariable ⟨i, given⟩) given

end EthBatch.Settings.Field
