import EthBatch.Bytes
import EthBatch.Text.Hex
import EthBatch.Text.Printable

/-!
# Quoted text

Messages quote names and values. A quoted text stands in single quotes, or in double quotes
when it holds a single quote and no double one. The backslash and the chosen quote are escaped
by a backslash; line feed, carriage return and tab have letters; every other character that is
not printable is written by its code.
-/

namespace EthBatch.Text.Quoted

/-- The quote that encloses the characters. -/
def mark (cs : List Char) : Char :=
  if cs.contains '\'' && !cs.contains '"' then '"' else '\''

/-- The low `width` hexadecimal digits of a code. -/
def code : (width n : Nat) → List Char
  | 0, _ => []
  | width + 1, n => code width (n / 16) ++ [Hex.digit (n % 16)]

/-- The letter that stands for a control character after a backslash. -/
def controlLetter? (c : Char) : Option Char :=
  if c = '\n' then some 'n' else if c = '\r' then some 'r' else if c = '\t' then some 't'
  else none

/-- One character inside quotes of the given kind. -/
def escape (quote c : Char) : List Char :=
  if c = quote || c = '\\' then ['\\', c]
  else match controlLetter? c with
    | some l => ['\\', l]
    | none =>
      if isPrintable c then [c]
      else if c.toNat < 0x100 then '\\' :: 'x' :: code 2 c.toNat
      else if c.toNat < 0x10000 then '\\' :: 'u' :: code 4 c.toNat
      else '\\' :: 'U' :: code 8 c.toNat

/-- A text in quotes. -/
def text (s : String) : String :=
  let cs := s.toList
  String.ofList (mark cs :: cs.flatMap (escape (mark cs)) ++ [mark cs])

/-- A byte string in quotes after a `b`: bytes outside printable ASCII by their code. -/
def bytes (b : Bytes) : String :=
  let cs := b.map fun x => Char.ofNat x.toNat
  let one (c : Char) : List Char :=
    if c.toNat < 127 then escape (mark cs) c else '\\' :: 'x' :: code 2 c.toNat
  String.ofList ('b' :: mark cs :: cs.flatMap one ++ [mark cs])

end EthBatch.Text.Quoted
