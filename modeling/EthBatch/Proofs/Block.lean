import EthBatch.Block
import EthBatch.Proofs.Address

/-!
# The height that a block identifier states

A number states its height, and so does a quantity: the mark, any number of zeros, and the digits
of the height in either letter case, fewer than 64 digits together. A tag and a hash state none. A
hash has the mark and digits, too, but it has 64 of them.
-/

namespace EthBatch

namespace Hex

/-- Beyond ASCII there are no digits and no letter case. -/
theorem value?_of_le {c : Char} (h : 128 ≤ c.toNat) : value? c = none ∧ c.toLower = c := by
  have above (d : Char) (small : d.toNat < 128) : ¬ c ≤ d := by
    intro le
    have : c.toNat ≤ d.toNat := UInt32.le_iff_toNat_le.mp le
    omega
  constructor
  · rw [value?, if_neg fun h => above _ (by decide) h.2, if_neg fun h => above _ (by decide) h.2,
      if_neg fun h => above _ (by decide) h.2]
  · rw [Char.toLower, dif_neg fun h => above _ (by decide) h.2]

/-- What holds of every ASCII character and of all others holds of every character. -/
theorem forall_char {P : Char → Prop} (ascii : ∀ n : Fin 128, P (Char.ofNat n))
    (beyond : ∀ c : Char, 128 ≤ c.toNat → P c) (c : Char) : P c := by
  by_cases small : c.toNat < 128
  · have := ascii ⟨c.toNat, small⟩
    rwa [Char.ofNat_toNat] at this
  · exact beyond c (Nat.le_of_not_lt small)

/-- The value of a digit does not depend on its letter case. -/
theorem value?_toLower (c : Char) : value? c.toLower = value? c := by
  revert c
  apply forall_char
  · decide
  · intro c high
    rw [(value?_of_le high).2]

/-- A digit in lower case is the one that is written for its value. -/
theorem toLower_of_value? (c : Char) : ∀ d ∈ value? c, d < 16 ∧ c.toLower = digit d := by
  revert c
  apply forall_char
  · decide
  · intro c high
    rw [(value?_of_le high).1]
    nofun

/-- All that is read as a number are digits. -/
theorem isDigit_of_toNat? {cs : List Char} {n : Nat} (h : toNat? cs = some n) :
    cs.all isDigit = true := by
  have digits (ds : List Char) (acc : Nat)
      (h : ds.foldlM (fun (n : Nat) c => (value? c).map (n * 16 + ·)) acc = some n) :
      ds.all isDigit = true := by
    induction ds generalizing acc with
    | nil => rfl
    | cons c ds ih =>
        rw [List.foldlM_cons] at h
        obtain ⟨next, read, rest⟩ := Option.bind_eq_some_iff.mp h
        obtain ⟨d, value, _⟩ := Option.map_eq_some_iff.mp read
        rw [List.all_cons, isDigit, value, ih next rest]
        rfl
  exact digits cs 0 h

theorem toNat?_toLower (cs : List Char) : toNat? (cs.map Char.toLower) = toNat? cs := by
  simp only [toNat?, List.foldlM_map, value?_toLower]

/-- Zeros in front make no difference. -/
theorem toNat?_zeros_append (zeros : Nat) (cs : List Char) :
    toNat? (List.replicate zeros '0' ++ cs) = toNat? cs := by
  induction zeros with
  | zero => rfl
  | succ zeros ih => exact ih

theorem toNat?_append_digit {cs : List Char} {n d : Nat} (h : toNat? cs = some n) (small : d < 16) :
    toNat? (cs ++ [digit d]) = some (n * 16 + d) := by
  simp only [toNat?] at h
  simp [toNat?, List.foldlM_append, h, value?_digit small]

theorem ofNat_of_lt {n : Nat} (small : n < 16) : ofNat n = [digit n] := by
  rw [ofNat, if_pos small]

theorem ofNat_ne_nil (n : Nat) : ofNat n ≠ [] := by
  rw [ofNat]
  split
  · nofun
  · exact List.append_ne_nil_of_right_ne_nil _ nofun

/-- The digits of a number are read as the number. -/
theorem toNat?_ofNat (n : Nat) : toNat? (ofNat n) = some n := by
  induction n using ofNat.induct with
  | case1 n small =>
      have read : toNat? [digit n] = some (0 * 16 + n) := @toNat?_append_digit [] 0 n rfl small
      rw [ofNat_of_lt small, read, Nat.zero_mul, Nat.zero_add]
  | case2 n large ih =>
      rw [ofNat, if_neg large, toNat?_append_digit ih (Nat.mod_lt _ (by decide)),
        Nat.div_add_mod']

/-- Any digits are those of a number behind zeros. -/
theorem exists_ofNat {cs : List Char} (some : cs ≠ []) (digits : cs.all isDigit = true) :
    ∃ zeros n, cs.map Char.toLower = List.replicate zeros '0' ++ ofNat n := by
  induction cs using List.reverseRecOn with
  | nil => exact absurd rfl some
  | append_singleton cs c ih =>
      rw [List.all_append, Bool.and_eq_true, List.all_cons, List.all_nil, Bool.and_true] at digits
      obtain ⟨d, value⟩ := Option.isSome_iff_exists.mp digits.2
      obtain ⟨small, lower⟩ := toLower_of_value? c d value
      rw [List.map_append, List.map_singleton, lower]
      by_cases first : cs = []
      · refine ⟨0, d, ?_⟩
        rw [first, ofNat_of_lt small]
        rfl
      · obtain ⟨zeros, n, spelled⟩ := ih first digits.1
        rw [spelled]
        cases n with
        | zero =>
            -- What comes before the digit are zeros only.
            refine ⟨zeros + 1, d, ?_⟩
            rw [ofNat_of_lt (by decide), ofNat_of_lt small, List.replicate_succ']
            rfl
        | succ n =>
            refine ⟨zeros, (n + 1) * 16 + d, ?_⟩
            have high : ((n + 1) * 16 + d) / 16 = n + 1 := by omega
            have low : ((n + 1) * 16 + d) % 16 = d := by omega
            rw [ofNat.eq_def ((n + 1) * 16 + d), if_neg (by omega), high, low, List.append_assoc]

end Hex

namespace Block

/-- A block identifier states a height: by its number, or by a quantity with its digits. -/
inductive States (n : Nat) : Value → Prop
  | number : States n (.int n)
  | quantity {zeros : Nat} {digits : List Char}
      (spelled : digits.map Char.toLower = List.replicate zeros '0' ++ Hex.ofNat n)
      (short : digits.length < 64) :
      States n (.text (String.ofList ('0' :: 'x' :: digits)))

/-- A block identifier names a block without its height: by a tag, which has no mark, or by its
hash, as text or as bytes. -/
inductive IsName : Value → Prop
  | tag {s : String} (unmarked : ['0', 'x'].isPrefixOf s.toList = false) : IsName (.text s)
  | hash {digits : List Char} (length : digits.length = 64)
      (hex : digits.all Hex.isDigit = true) :
      IsName (.text (String.ofList ('0' :: 'x' :: digits)))
  | hashBytes {b : Bytes} (length : b.length = 32) : IsName (.bytes b)

/-- A mark with one to 63 digits behind it states a height. -/
theorem exists_states {digits : List Char} (some : digits ≠ []) (short : digits.length < 64)
    (hex : digits.all Hex.isDigit = true) :
    ∃ n, States n (.text (String.ofList ('0' :: 'x' :: digits))) := by
  obtain ⟨zeros, n, spelled⟩ := Hex.exists_ofNat some hex
  exact ⟨n, .quantity spelled short⟩

/-- Digits behind the mark are a quantity if they are fewer than those of a hash. -/
theorem isQuantity_marked {digits : List Char} (hex : digits.all Hex.isDigit = true) :
    isQuantity ('0' :: 'x' :: digits) = decide (digits.length < 64) := by
  have short : digits.length + 2 < 66 ↔ digits.length < 64 := by omega
  simp [isQuantity, List.isPrefixOf, Hex.isHex, Hex.dropMark, hex, short]

/-- The height that is stated is the one that is read. -/
theorem States.height {n : Nat} {b : Value} (h : States n b) :
    Block.height b = .ok (some (n : Int)) := by
  cases h with
  | number => rfl
  | @quantity zeros digits spelled short =>
      have read : Hex.toNat? digits = some n := by
        rw [← Hex.toNat?_toLower, spelled, Hex.toNat?_zeros_append, Hex.toNat?_ofNat]
      have quantity : isQuantity ('0' :: 'x' :: digits) = true := by
        rw [isQuantity_marked (Hex.isDigit_of_toNat? read), decide_eq_true short]
      have nonempty : digits ≠ [] := by
        rintro rfl
        exact Hex.ofNat_ne_nil n (List.append_eq_nil_iff.mp spelled.symm).2
      rw [Block.height, String.toList_ofList, heightOfChars, if_pos quantity, List.drop_succ_cons,
        List.drop_succ_cons, List.drop_zero, read]
      cases digits with
      | nil => exact absurd rfl nonempty
      | cons c digits => rfl

/-- Neither a tag nor a hash is read as a height. -/
theorem IsName.height {b : Value} (h : IsName b) : Block.height b = .ok none := by
  cases h with
  | @tag s unmarked =>
      rw [Block.height, heightOfChars, isQuantity, unmarked]
      rfl
  | @hash digits length hex =>
      have long : isQuantity ('0' :: 'x' :: digits) = false := by
        rw [isQuantity_marked hex, length]
        rfl
      rw [Block.height, String.toList_ofList, heightOfChars, long]
      rfl
  | hashBytes length => rfl

/-! ## All texts -/

/-- The mark without a digit. -/
def bareMark : String := "0x"

/-- The text states a height. -/
def IsNumber (s : String) : Prop := ∃ n, States n (.text s)

/-- A text states a height, or it is the bare mark, which is refused, or no height is read. -/
theorem height_text_cases (s : String) :
    (∃ n, States n (.text s)) ∨ (s = bareMark ∧ height (.text s) = .error .badValue) ∨
      height (.text s) = .ok none := by
  by_cases quantity : isQuantity s.toList = true
  · simp only [isQuantity, Bool.and_eq_true, decide_eq_true_eq, List.isPrefixOf_iff_prefix]
      at quantity
    obtain ⟨⟨⟨digits, marked⟩, short⟩, hex⟩ := quantity
    have same : s = String.ofList ('0' :: 'x' :: digits) := by
      rw [← String.ofList_toList (s := s), ← marked]
      rfl
    rw [← marked] at short hex
    subst same
    by_cases bare : digits = []
    · subst bare
      exact .inr (.inl ⟨rfl, rfl⟩)
    · have digitsOnly : digits.all Hex.isDigit = true := by
        simpa [Hex.isHex, Hex.dropMark] using hex
      exact .inl (exists_states bare (by simp at short; omega) digitsOnly)
  · refine .inr (.inr ?_)
    rw [height, heightOfChars, if_neg quantity]

theorem height_bareMark : height (.text bareMark) = .error .badValue := rfl

/-- The height that is read is the one that is stated. -/
theorem height_text_eq_some {s : String} {n : Int} :
    height (.text s) = .ok (some n) ↔ ∃ m : Nat, n = m ∧ States m (.text s) := by
  constructor
  · intro read
    rcases height_text_cases s with ⟨m, states⟩ | ⟨-, refused⟩ | none
    · rw [states.height] at read
      exact ⟨m, by simpa using read.symm, states⟩
    · rw [refused] at read
      cases read
    · rw [none] at read
      cases read
  · rintro ⟨m, rfl, states⟩
    exact states.height

/-- No height is read from a text that states none, the bare mark apart. -/
theorem height_text_eq_none {s : String} :
    height (.text s) = .ok none ↔ s ≠ bareMark ∧ ¬ IsNumber s := by
  constructor
  · intro read
    constructor
    · rintro rfl
      cases read
    · rintro ⟨n, states⟩
      rw [states.height] at read
      cases read
  · rintro ⟨other, unstated⟩
    rcases height_text_cases s with stated | ⟨bare, -⟩ | none
    · exact absurd stated unstated
    · exact absurd bare other
    · exact none

/-- Only the bare mark is refused. -/
theorem height_text_eq_error {s : String} {f : Fault} :
    height (.text s) = .error f ↔ s = bareMark ∧ f = .badValue := by
  constructor
  · intro read
    rcases height_text_cases s with ⟨n, states⟩ | ⟨bare, refused⟩ | none
    · rw [states.height] at read
      cases read
    · rw [refused] at read
      exact ⟨bare, (Except.error.inj read).symm⟩
    · rw [none] at read
      cases read
  · rintro ⟨rfl, rfl⟩
    exact height_bareMark

end Block

end EthBatch
