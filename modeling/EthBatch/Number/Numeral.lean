import EthBatch.Text.Blank
import EthBatch.Text.Digit

/-!
# Numbers and their numerals

A numeral is a sign, a coefficient and a power of ten, or one of the words for infinity and
for no number at all. It is read exactly, and a floating-point number is the nearest one to it.
A number in a text may have blanks around it, the decimal digits of any script, and single
underscores, each between two digits.

A whole number of more than `maxDigits` digits is neither read nor written.
-/

namespace EthBatch

/-- An exact decimal: `coefficient * 10 ^ exponent` with a sign, or a special value. -/
inductive Decimal where
  | finite (negative : Bool) (coefficient : Nat) (exponent : Int)
  | infinite (negative : Bool)
  | undefined
  deriving DecidableEq, Repr, Inhabited

namespace Number

/-- The characters of a grouped run of digits without its underscores. An underscore at an
end or next to another one refuses the run. -/
def ungroup (isDigit : Char → Bool) : List Char → Option (List Char)
  | [] => some []
  | '_' :: _ => none
  | c :: '_' :: d :: rest =>
    if isDigit c && isDigit d then (ungroup isDigit (d :: rest)).map (c :: ·) else none
  | [_, '_'] => none
  | c :: rest => (ungroup isDigit rest).map (c :: ·)

/-- Splits a sign off; a text without one is positive. -/
def signed : List Char → Bool × List Char
  | '-' :: rest => (true, rest)
  | '+' :: rest => (false, rest)
  | cs => (false, cs)

/-- Is the character one of the ten ASCII digits? -/
def isAsciiDigit (c : Char) : Bool := '0' ≤ c && c ≤ '9'

/-- A text with the decimal digits of every script replaced by the ASCII ones. -/
def asciiDigits (cs : List Char) : List Char :=
  cs.map fun c => match Text.decimal? c with
    | some d => Char.ofNat (48 + d)
    | none => c

/-- The exponent part of a numeral: absent, or `e` with a signed run of digits. -/
def exponent? : List Char → Option Int
  | [] => some 0
  | c :: rest =>
    if c == 'e' || c == 'E' then
      let (negative, digits) := signed rest
      if digits.isEmpty || !digits.all isAsciiDigit then none
      else (Text.natOfDigits? digits).map fun n => if negative then -n else n
    else none

/-- An unsigned numeral: digits, an optional point with digits, an optional exponent. At least
one digit stands on one side of the point. -/
def unsigned? (cs : List Char) : Option (Nat × Int) := do
  let whole := cs.takeWhile isAsciiDigit
  let rest := cs.dropWhile isAsciiDigit
  let (fraction, rest) := match rest with
    | '.' :: more => (more.takeWhile isAsciiDigit, more.dropWhile isAsciiDigit)
    | _ => ([], rest)
  if whole.isEmpty && fraction.isEmpty then none
  let exponent ← exponent? rest
  let coefficient ← Text.natOfDigits? (whole ++ fraction)
  some (coefficient, exponent - fraction.length)

/-- A signed numeral in ASCII digits or, in any letter case, `inf`, `infinity` or `nan`. -/
def numeral? (cs : List Char) : Option Decimal :=
  let (negative, body) := signed cs
  let word := String.ofList (body.map Char.toLower)
  if word == "inf" || word == "infinity" then some (.infinite negative)
  else if word == "nan" then some .undefined
  else (unsigned? body).map fun (c, e) => .finite negative c e

/-- The decimal digits of a number. -/
def digits (n : Nat) : List Char := Nat.toDigits 10 n

/-- The largest number of digits that is read or written. -/
def maxDigits : Nat := 4300

/-- Can a whole number be written? -/
def isWritable (n : Int) : Bool := (digits n.natAbs).length ≤ maxDigits

/-- A non-empty run of digits, grouped or not. -/
def natural? (cs : List Char) : Option Nat := do
  let digits ← ungroup (fun c => (Text.decimal? c).isSome) cs
  if digits.isEmpty || digits.length > maxDigits then none
  Text.natOfDigits? digits

/-- Reads a whole number. -/
def whole? (cs : List Char) : Option Int :=
  let (negative, digits) := signed (Text.trimBy Text.isSpace cs)
  (natural? digits).map fun n => if negative then -n else n

/-- The binary64 number nearest to a decimal. Far outside the range it is known without
arithmetic. -/
def nearest : Decimal → Float
  | .undefined => 0.0 / 0.0
  | .infinite negative => if negative then -1.0 / 0.0 else 1.0 / 0.0
  | .finite negative coefficient exponent =>
    let size : Int := (digits coefficient).length + exponent
    let magnitude : Float :=
      if coefficient = 0 || size < -400 then 0.0
      else if size > 400 then 1.0 / 0.0
      else Float.ofScientific coefficient (exponent < 0) exponent.natAbs
    if negative then -magnitude else magnitude

/-- Reads a floating-point number. -/
def real? (cs : List Char) : Option Float := do
  let plain ← ungroup isAsciiDigit (asciiDigits (Text.trimBy Text.isSpace cs))
  (numeral? plain).map nearest

end Number

end EthBatch
