import EthBatch.Number.Shortest
import EthBatch.Number.Numeral
import EthBatch.Text.Quoted
import EthBatch.Value

/-!
# The written form of a value

Messages show foreign values. Numbers are written plainly, floating-point numbers by their
shortest digits: positional from `1e-4` up to below `1e16`, with an exponent of at least two
digits outside. Texts and byte strings are quoted, sequences and records keep their brackets.
`written` gives digits to every whole number; where a text is made, `isWritable` says whether it
can be.
-/

namespace EthBatch

namespace Number

/-- A whole number in decimal digits. -/
def intText (n : Int) : String :=
  String.ofList (if n < 0 then '-' :: digits n.natAbs else digits n.natAbs)

/-- The exponent of a numeral: the mark, a sign and at least `width` digits. -/
def exponentText (mark : Char) (width : Nat) (e : Int) : List Char :=
  let ds := digits e.natAbs
  mark :: (if e < 0 then '-' else '+') :: List.replicate (width - ds.length) '0' ++ ds

/-- Digits with the point after the first `point` of them; a negative position stands for
zeros in front. -/
def placed (ds : List Char) (point : Int) : List Char :=
  if point ≤ 0 then '0' :: '.' :: List.replicate (-point).toNat '0' ++ ds
  else if ds.length ≤ point.toNat then ds ++ List.replicate (point.toNat - ds.length) '0'
  else ds.take point.toNat ++ '.' :: ds.drop point.toNat

/-- The text of a floating-point number. -/
def floatText (x : Float) : String :=
  if x.isNaN then "nan"
  else
    let sign := if x.toBits >>> 63 == 1 then ['-'] else []
    let body :=
      if x.isInf then ['i', 'n', 'f']
      else if x == 0.0 then ['0', '.', '0']
      else
        let (d, e) := shortest x.abs
        let ds := digits d
        let point : Int := ds.length + e
        if -4 < point && point ≤ 16 then
          let shown := placed ds point
          if shown.contains '.' then shown else shown ++ ['.', '0']
        else
          let tail := if ds.length = 1 then [] else '.' :: ds.drop 1
          ds.take 1 ++ tail ++ exponentText 'e' 2 (point - 1)
    String.ofList (sign ++ body)

end Number

namespace Decimal

/-- The text of a decimal: positional while the exponent is not positive and the number not
below `1e-6`, with an exponent otherwise. -/
def text : Decimal → String
  | .undefined => "NaN"
  | .infinite negative => if negative then "-Infinity" else "Infinity"
  | .finite negative c e =>
    let ds := Number.digits c
    let point : Int := ds.length + e
    let body :=
      if e ≤ 0 && -6 < point then
        if e = 0 then ds else Number.placed ds point
      else
        let tail := if ds.length = 1 then [] else '.' :: ds.drop 1
        ds.take 1 ++ tail ++ (if point = 1 then [] else Number.exponentText 'E' 1 (point - 1))
    String.ofList (if negative then '-' :: body else body)

/-- The text of a decimal without an exponent and without zeros at the end of its fraction. -/
def plain : Decimal → String
  | .finite negative c e =>
    let shown :=
      if 0 ≤ e then Number.digits (c * Nat.pow 10 e.toNat)
      else
        let ds := Number.digits c
        let all := Number.placed ds (ds.length + e)
        let cut := (all.reverse.dropWhile (· == '0'))
        (match cut with
          | '.' :: rest => rest
          | _ => cut).reverse
    String.ofList (if negative then '-' :: shown else shown)
  | d => d.text

end Decimal

namespace Value

/-- Items between commas. -/
def commaSeparated (items : List String) : String := String.intercalate ", " items

mutual

/-- The form in which a message shows a value. -/
def written : Value → String
  | .null => "None"
  | .bool b => if b then "True" else "False"
  | .int n => Number.intText n
  | .float x => Number.floatText x
  | .decimal d => "Decimal('" ++ d.text ++ "')"
  | .text s => Text.Quoted.text s
  | .bytes b => Text.Quoted.bytes b
  | .buffer b => "bytearray(" ++ Text.Quoted.bytes b ++ ")"
  | .list xs => "[" ++ commaSeparated (writtenItems xs) ++ "]"
  | .tuple xs =>
    match writtenItems xs with
    | [one] => "(" ++ one ++ ",)"
    | many => "(" ++ commaSeparated many ++ ")"
  | .record fs => "\x7b" ++ commaSeparated (writtenFields fs) ++ "\x7d"
  | .contract _ => "<Contract>"
  | .method name => "<Function " ++ name ++ ">"

def writtenItems : List Value → List String
  | [] => []
  | v :: vs => written v :: writtenItems vs

def writtenFields : List (String × Value) → List String
  | [] => []
  | (k, v) :: fs => (Text.Quoted.text k ++ ": " ++ written v) :: writtenFields fs

end

mutual

/-- Has the value a written form? A whole number in it may have too many digits. -/
def isWritable : Value → Bool
  | .int n => Number.isWritable n
  | .list xs => areWritable xs
  | .tuple xs => areWritable xs
  | .record fs => areWritableFields fs
  | _ => true

def areWritable : List Value → Bool
  | [] => true
  | v :: vs => isWritable v && areWritable vs

def areWritableFields : List (String × Value) → Bool
  | [] => true
  | (_, v) :: fs => isWritable v && areWritableFields fs

end

/-- The form in which a value stands inside a sentence: a text without its quotes. -/
def shown : Value → String
  | .text s => s
  | .decimal d => d.text
  | v => v.written

end Value

end EthBatch
