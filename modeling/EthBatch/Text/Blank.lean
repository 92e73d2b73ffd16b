/-!
# Blank characters

The characters that are trimmed from the ends of a text before it is read as a number, a
truth value or a chain name. Two sets are in use: the separators of Unicode together with the
ASCII controls that act as separators, and the same without the four ASCII separators
`0x1c` to `0x1f`.
-/

namespace EthBatch.Text

/-- The blanks of Unicode, the ASCII information separators not among them. -/
def isSpace (c : Char) : Bool :=
  let n := c.toNat
  (9 ≤ n && n ≤ 13) || n == 0x20 || n == 0x85 || n == 0xa0 || n == 0x1680 ||
    (0x2000 ≤ n && n ≤ 0x200a) || n == 0x2028 || n == 0x2029 || n == 0x202f || n == 0x205f ||
    n == 0x3000

/-- The blanks of Unicode and the ASCII information separators. -/
def isBlank (c : Char) : Bool :=
  isSpace c || (0x1c ≤ c.toNat && c.toNat ≤ 0x1f)

/-- A text without the characters of a class at its two ends. -/
def trimBy (p : Char → Bool) (cs : List Char) : List Char :=
  ((cs.dropWhile p).reverse.dropWhile p).reverse

/-- A text without the blanks at its two ends. -/
def trim (cs : List Char) : List Char := trimBy isBlank cs

/-- A text whose ends are not blank is left alone. -/
theorem trimBy_eq_self {p : Char → Bool} {cs : List Char}
    (first : ∀ c ∈ cs.head?, p c = false) (last : ∀ c ∈ cs.getLast?, p c = false) :
    trimBy p cs = cs := by
  have drop : ∀ ds : List Char, (∀ c ∈ ds.head?, p c = false) → ds.dropWhile p = ds := by
    intro ds h
    cases ds with
    | nil => rfl
    | cons d ds => simp [h d (by simp)]
  rw [trimBy, drop cs first, drop cs.reverse (by simpa using last), List.reverse_reverse]

end EthBatch.Text
