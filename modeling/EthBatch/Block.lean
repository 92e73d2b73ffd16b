import EthBatch.Value
import EthBatch.Text.Hex
import EthBatch.Number.Numeral
import EthBatch.Fault

/-!
# Block identifiers

A block is named by a number, by a hexadecimal quantity, by its hash or by a tag. Only numbers
and quantities say how high the block is. A quantity is `0x` and digits, shorter than a hash.
-/

namespace EthBatch.Block

/-- The text is shaped like a quantity: the mark in lower case, fewer characters than a hash,
and nothing but digits behind the mark. -/
def isQuantity (cs : List Char) : Bool :=
  ['0', 'x'].isPrefixOf cs && cs.length < 66 && Hex.isHex cs

/-- The height that a text states. The mark alone is shaped like a quantity and has no
number. -/
def heightOfChars (cs : List Char) : Except Fault (Option Int) :=
  if isQuantity cs then
    match cs.drop 2, Hex.toNat? (cs.drop 2) with
    | [], _ => .error .badValue
    | _, some n => .ok (some n)
    | _, none => .error .badValue
  else .ok none

/-- The height that a block identifier states, if it states one. -/
def height : Value → Except Fault (Option Int)
  | .int n => .ok (some n)
  | .text s => heightOfChars s.toList
  | _ => .ok none

end EthBatch.Block
