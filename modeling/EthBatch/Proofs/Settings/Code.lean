import EthBatch.Proofs.Block
import EthBatch.Proofs.Settings

/-!
# Code that settings state

A setting for code takes hexadecimal text with a mark, with a capital one, or with none, and keeps
it with the mark. The digits behind the mark of what is kept are those of the text, so its bytes are
the ones that the text states, and it is read again as it is. Only a capital mark is not seen: it is
kept behind the other one, and there are no digits then.
-/

namespace EthBatch

namespace Hex

variable {cs ds : List Char} {b : Bytes} {c : Char}

/-- The digits state the bytes: they are the ones that are written for them, in either letter case,
and a zero in front of an odd number of them is left out. -/
def Spells (digits : List Char) (b : Bytes) : Prop :=
  encode b = (if digits.length % 2 = 1 then '0' :: digits else digits).map Char.toLower

theorem encode_of_decode? (h : decode? cs = some b) : encode b = cs.map Char.toLower := by
  induction cs using decode?.induct generalizing b with
  | case1 =>
      obtain rfl := Option.some.inj h
      rfl
  | case2 c => cases h
  | case3 x y rest ih =>
      obtain ⟨high, first, h⟩ := Option.bind_eq_some_iff.mp h
      obtain ⟨low, second, h⟩ := Option.bind_eq_some_iff.mp h
      obtain ⟨tail, behind, h⟩ := Option.bind_eq_some_iff.mp h
      obtain rfl := Option.some.inj h
      obtain ⟨smallHigh, writtenHigh⟩ := toLower_of_value? x high first
      obtain ⟨smallLow, writtenLow⟩ := toLower_of_value? y low second
      have byte : (UInt8.ofNat (high * 16 + low)).toNat = high * 16 + low :=
        UInt8.toNat_ofNat_of_lt' (by simp only [UInt8.size]; omega)
      have upper : (high * 16 + low) / 16 = high := by omega
      have lower : (high * 16 + low) % 16 = low := by omega
      rw [encode_cons, byte, upper, lower, ih behind, List.map_cons, List.map_cons, writtenHigh,
        writtenLow]

theorem decode?_eq_some_iff : decode? cs = some b ↔ encode b = cs.map Char.toLower := by
  constructor
  · exact encode_of_decode?
  · intro written
    have values : cs.map value? = (encode b).map value? := by
      rw [written, List.map_map]
      exact List.map_congr_left fun c _ => (value?_toLower c).symm
    rw [decode?_congr values, decode?_encode]

/-- All that bytes are read from are digits. -/
theorem isDigit_of_decode? (h : decode? cs = some b) (mem : c ∈ cs) : isDigit c = true := by
  have lower : c.toLower ∈ encode b := encode_of_decode? h ▸ List.mem_map_of_mem mem
  obtain ⟨n, small, written⟩ := exists_digit lower
  rw [isDigit, ← value?_toLower, written, value?_digit small]
  rfl

theorem exists_decode? (digits : cs.all isDigit = true) (even : cs.length % 2 = 0) :
    ∃ b, decode? cs = some b := by
  induction cs using decode?.induct with
  | case1 => exact ⟨[], rfl⟩
  | case2 c => cases even
  | case3 x y rest ih =>
      simp only [List.all_cons, Bool.and_eq_true, isDigit, Option.isSome_iff_exists] at digits
      obtain ⟨⟨high, first⟩, ⟨low, second⟩, digits⟩ := digits
      obtain ⟨tail, behind⟩ := ih digits (by simp only [List.length_cons] at even; omega)
      refine ⟨UInt8.ofNat (high * 16 + low) :: tail, ?_⟩
      rw [decode?, first, second, behind]
      rfl

theorem small_of_isDigit (h : isDigit c = true) : c.toNat < 128 := by
  apply Nat.lt_of_not_le
  intro beyond
  rw [isDigit, (value?_of_le beyond).1] at h
  cases h

theorem exists_spells (digits : ds.all isDigit = true) : ∃ b, Spells ds b := by
  have padded : ∃ b, decode? (if ds.length % 2 = 1 then '0' :: ds else ds) = some b := by
    split
    · exact exists_decode? (by simpa using ⟨by decide, by simpa using digits⟩)
        (by simp only [List.length_cons]; omega)
    · exact exists_decode? digits (by omega)
  obtain ⟨b, read⟩ := padded
  exact ⟨b, encode_of_decode? read⟩

theorem Spells.isDigit (h : Spells ds b) : ds.all isDigit = true := by
  have read := decode?_eq_some_iff.mpr h
  rw [List.all_eq_true]
  intro c mem
  apply isDigit_of_decode? read
  split
  · exact List.mem_cons_of_mem _ mem
  · exact mem

/-- Only no digits state no bytes. -/
theorem Spells.eq_nil_iff (h : Spells ds b) : b = [] ↔ ds = [] := by
  have length := congrArg List.length h
  rw [List.length_map, length_encode] at length
  constructor
  · rintro rfl
    split at length
    · cases length
    · exact List.length_eq_zero_iff.mp length.symm
  · rintro rfl
    exact List.length_eq_zero_iff.mp (by simpa using length)

/-- A text without a mark, with the mark, or with a capital one. -/
theorem dropMark_cases (cs : List Char) :
    cs = '0' :: 'x' :: dropMark cs ∨ cs = '0' :: 'X' :: dropMark cs ∨
      cs = dropMark cs ∧ ¬ ['0', 'x'] <+: cs ∧ ¬ ['0', 'X'] <+: cs := by
  unfold dropMark
  split
  · exact .inl rfl
  · exact .inr (.inl rfl)
  · next small capital =>
    refine .inr (.inr ⟨rfl, ?_, ?_⟩)
    · rintro ⟨rest, rfl⟩
      exact small rest rfl
    · rintro ⟨rest, rfl⟩
      exact capital rest rfl

theorem read_marked_eq (ascii : ∀ c ∈ ds, c.toNat < 128) : read ('0' :: 'x' :: ds) =
    match decode? (if ds.length % 2 = 1 then '0' :: ds else ds) with
    | some b => .ok b
    | none => .error .notHex := by
  have parity : ('0' :: 'x' :: ds).length % 2 = ds.length % 2 := by
    simp only [List.length_cons]
    omega
  have small : (if ds.length % 2 = 1 then '0' :: ds else ds).any
      (fun c => decide (c.toNat ≥ 128)) = false := by
    rw [List.any_eq_false]
    intro c mem
    have : c = '0' ∨ c ∈ ds := by
      split at mem
      · exact List.mem_cons.mp mem
      · exact .inr mem
    rcases this with rfl | mem
    · decide
    · simpa using ascii c mem
  rw [read, parity, dropMark, small]
  rfl

/-- The bytes of a marked text are those that its digits state. -/
theorem Spells.read_marked (h : Spells ds b) : read ('0' :: 'x' :: ds) = .ok b := by
  have ascii : ∀ c ∈ ds, c.toNat < 128 := fun c mem =>
    small_of_isDigit (List.all_eq_true.mp h.isDigit c mem)
  rw [read_marked_eq ascii, decode?_eq_some_iff.mpr h]

/-- A marked text that goes on with anything else than digits states no bytes. -/
theorem read_marked_stray (ascii : ∀ c ∈ ds, c.toNat < 128) (stray : ds.all isDigit = false) :
    read ('0' :: 'x' :: ds) = .error .notHex := by
  rw [read_marked_eq ascii]
  split
  · next b read =>
    have digits : ds.all isDigit = true := Spells.isDigit (encode_of_decode? read)
    rw [digits] at stray
    cases stray
  · rfl

end Hex

namespace Settings

/-- The mark in front of the digits has a capital letter. -/
def HasCapitalMark (s : String) : Prop := ['0', 'X'] <+: s.toList

instance (s : String) : Decidable (HasCapitalMark s) :=
  inferInstanceAs (Decidable (['0', 'X'] <+: s.toList))

namespace Field

variable {s t : String} {ds : List Char}

/-- A marked text is kept as it is if there are only digits behind the mark. -/
theorem markedHex_marked (digits : ds.all Hex.isDigit = true) :
    markedHex (String.ofList ('0' :: 'x' :: ds)) = .ok (String.ofList ('0' :: 'x' :: ds)) := by
  simp [markedHex, Hex.isHex, Hex.dropMark, digits, List.isPrefixOf]

theorem markedHex_stray (stray : ds.all Hex.isDigit = false) :
    markedHex (String.ofList ('0' :: 'x' :: ds)) = .error .notHex := by
  simp [markedHex, Hex.isHex, Hex.dropMark, stray]

/-- The digits that are kept are those of the text, unless its mark is a capital one: the whole text
is kept behind another mark then. -/
theorem markedHex_eq_ok (h : markedHex s = .ok t) :
    (Hex.dropMark s.toList).all Hex.isDigit = true ∧ t = String.ofList ('0' :: 'x' ::
      if ['0', 'X'].isPrefixOf s.toList then s.toList else Hex.dropMark s.toList) := by
  rw [markedHex] at h
  split at h
  · cases h
  · next hex =>
    have digits : (Hex.dropMark s.toList).all Hex.isDigit = true := by
      simp only [Hex.isHex, Bool.not_eq_true', Bool.not_eq_false, Bool.and_eq_true] at hex
      exact hex.2
    refine ⟨digits, ?_⟩
    have whole (rest : List Char) (same : s.toList = rest) : s = String.ofList rest := by
      rw [← same, String.ofList_toList]
    rcases Hex.dropMark_cases s.toList with marked | marked | ⟨bare, unmarked, uncapital⟩
    · rw [marked] at h
      obtain rfl := Except.ok.inj h
      rw [marked]
      exact whole _ marked
    · rw [marked] at h
      obtain rfl := Except.ok.inj h
      rw [if_pos (by rw [marked]; rfl)]
      exact String.toList_injective (by simp)
    · rw [if_neg (by rwa [List.isPrefixOf_iff_prefix])] at h
      obtain rfl := Except.ok.inj h
      rw [if_neg (by rwa [List.isPrefixOf_iff_prefix]), ← bare]
      exact String.toList_injective (by simp)

end Field

namespace Spec

variable {x : Spec (Option String)} {env : Environment} {given : Fields} {stored : Option String}
variable {s : String}

/-- A setting is given a text, or takes it from its variable. -/
def States (x : Spec (Option String)) (env : Environment) (given : Fields) (s : String) : Prop :=
  ∃ v, x.source env given = .ok v ∧ Field.text v = .ok s

/-- What is stored for a text is read again as it is, and its bytes are those that the digits of the
text state. -/
structure Keeps (x : Spec (Option String)) (s : String) (stored : Option String) (b : Bytes) :
    Prop where
  spelled : Hex.Spells (Hex.dropMark s.toList) b
  reread : ∃ t, stored = some t ∧ x.read (.text t) = .ok stored
  bytes : codeBytes stored = .ok (some b)

/-- What is stored is not read again, and has no bytes. -/
structure Spoils (x : Spec (Option String)) (stored : Option String) : Prop where
  refused : ∃ t, stored = some t ∧ x.read (.text t) = .error .notHex
  unreadable : codeBytes stored = .error .notHex

theorem states_given {v : Value} (here : Fields.get? given x.name = some v) :
    x.States env given s ↔ Field.text v = .ok s := by
  simp [States, source, here]

theorem states_variable {name : String} (fallback : x.fallback = fun env => env.text name)
    (absent : Fields.get? given x.name = none) :
    x.States env given s ↔ env.trimmed? name = some s.toList := by
  have source : x.source env given = env.text name := by
    rw [source, absent, fallback]
  rw [States, source, Environment.text]
  cases env.trimmed? name with
  | none =>
      constructor
      · rintro ⟨v, found, text⟩
        obtain rfl := Except.ok.inj found
        cases text
      · intro same
        cases same
  | some cs =>
      constructor
      · rintro ⟨v, found, text⟩
        obtain rfl := Except.ok.inj found
        obtain rfl := Except.ok.inj text
        rw [String.toList_ofList]
      · intro same
        refine ⟨_, rfl, ?_⟩
        rw [Option.some.inj same, String.ofList_toList]
        rfl

theorem States.unique {s' : String} (h : x.States env given s) (h' : x.States env given s') :
    s = s' := by
  obtain ⟨v, found, text⟩ := h
  obtain ⟨_, found', text'⟩ := h'
  obtain rfl := Except.ok.inj (found.symm.trans found')
  exact Except.ok.inj (text.symm.trans text')

variable (reads : x.read = Field.optional Field.bytecode) (gives : x.Gives env given stored)
include reads gives

theorem exists_states_or_eq_none : (∃ s t, x.States env given s ∧ Field.markedHex s = .ok t ∧
    stored = some t) ∨ (∀ s, ¬ x.States env given s) ∧ stored = none := by
  obtain ⟨v, found, read⟩ := gives
  rw [reads] at read
  unfold Field.optional at read
  split at read
  · refine .inr ⟨?_, (Except.ok.inj read).symm⟩
    rintro s ⟨v, same, text⟩
    obtain rfl := Except.ok.inj (found.symm.trans same)
    cases text
  · obtain ⟨t, coded, rfl⟩ := Except.map_eq_ok.mp read
    have coded : (Field.text v >>= Field.markedHex) = .ok t := coded
    obtain ⟨s, text, marked⟩ := Except.bind_eq_ok.mp coded
    exact .inl ⟨s, t, ⟨v, found, text⟩, marked, rfl⟩

/-- A setting that states no text stores none. -/
theorem eq_none_of_not_states (h : ∀ s, ¬ x.States env given s) : stored = none := by
  rcases exists_states_or_eq_none reads gives with ⟨s, _, states, _⟩ | ⟨_, unset⟩
  · exact absurd states (h s)
  · exact unset

/-- A text that is stored is usable if its mark is not a capital one. -/
theorem States.keeps (h : x.States env given s) (small : ¬ HasCapitalMark s) :
    ∃ b, x.Keeps s stored b := by
  rcases exists_states_or_eq_none reads gives with ⟨s', t, states, marked, rfl⟩ | ⟨none, _⟩
  · obtain rfl := h.unique states
    obtain ⟨digits, kept⟩ := Field.markedHex_eq_ok marked
    rw [if_neg (by rwa [List.isPrefixOf_iff_prefix])] at kept
    obtain ⟨b, spelled⟩ := Hex.exists_spells digits
    refine ⟨b, spelled, ⟨t, rfl, ?_⟩, ?_⟩
    · rw [reads, kept]
      exact congrArg (Except.map some) (Field.markedHex_marked digits)
    · rw [kept, codeBytes, if_neg (by simp), String.toList_ofList, spelled.read_marked]
  · exact absurd h (none s)

/-- A text with a capital mark is not usable once it is stored. -/
theorem States.spoils (h : x.States env given s) (capital : HasCapitalMark s) :
    x.Spoils stored := by
  rcases exists_states_or_eq_none reads gives with ⟨s', t, states, marked, rfl⟩ | ⟨none, _⟩
  · obtain rfl := h.unique states
    obtain ⟨digits, kept⟩ := Field.markedHex_eq_ok marked
    rw [if_pos (by rwa [List.isPrefixOf_iff_prefix])] at kept
    obtain ⟨rest, spelled⟩ := capital
    rw [← spelled] at digits kept
    have stray : ('0' :: 'X' :: rest).all Hex.isDigit = false := rfl
    have ascii : ∀ c ∈ '0' :: 'X' :: rest, c.toNat < 128 := by
      have rest : ∀ c ∈ rest, c.toNat < 128 := by
        intro c mem
        exact Hex.small_of_isDigit (List.all_eq_true.mp digits c mem)
      simpa using rest
    refine ⟨⟨t, rfl, ?_⟩, ?_⟩
    · rw [reads, kept]
      exact congrArg (Except.map some) (Field.markedHex_stray stray)
    · rw [kept, codeBytes, if_neg (by simp), String.toList_ofList]
      simp only [List.cons_append, List.nil_append, Hex.read_marked_stray ascii stray]
      rfl
  · exact absurd h (none s)

end Spec

end Settings

end EthBatch
