/-!
# Faults of the contract interface format

Type names, values to be encoded and bytes to be decoded can each be refused, for a small
number of reasons.
-/

namespace EthBatch.Abi

/-- Why a type name has no codec. -/
inductive TypeFault where
  /-- The name does not follow the grammar. -/
  | unparsable
  /-- The name does not follow the grammar and mentions a tuple without components. -/
  | emptyTuple
  /-- The name follows the grammar and holds a number of too many digits. -/
  | longNumber
  /-- No type of that word is known. -/
  | unknown
  /-- The word is known and its size is not allowed. -/
  | badSize
  /-- A word that stands for a type of fixed size was given a size. -/
  | sizedAlias
  deriving DecidableEq, Repr, Inhabited

/-- Why a value has no encoding. -/
inductive EncodeFault where
  /-- The value is of another kind than the type. -/
  | wrongKind
  /-- The number or length is out of the range of the type. -/
  | outOfBounds
  /-- The value is of the right kind and range and cannot be represented. -/
  | illegal
  deriving DecidableEq, Repr, Inhabited

/-- Why bytes do not decode. -/
inductive DecodeFault where
  /-- The data end too early. -/
  | short
  /-- Padding bytes or unused bits are set. -/
  | padding
  /-- An offset points into the head of its container or behind the data. -/
  | pointer
  /-- A string is not UTF-8. -/
  | notUtf8
  /-- A length is too large to be read at all. -/
  | tooLong
  deriving DecidableEq, Repr, Inhabited

/-- Is the fault one that the format itself declares? An unreadable string and an oversized
length are not among them. -/
def DecodeFault.isDeclared : DecodeFault → Bool
  | .short | .padding | .pointer => true
  | .notUtf8 | .tooLong => false

end EthBatch.Abi
