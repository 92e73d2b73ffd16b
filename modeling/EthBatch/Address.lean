import EthBatch.Keccak
import EthBatch.Text.Hex

/-!
# Account addresses

An address is twenty bytes. Its text is `0x` and forty digits in which the letter case is a
checksum: a letter is a capital when the corresponding half byte of the hash of the lower-case
digits is at least eight. Reading ignores the letter case.
-/

namespace EthBatch

/-- Twenty bytes that name an account. -/
structure Address where
  bytes : Bytes
  size : bytes.length = 20

namespace Address

theorem ext {a b : Address} (h : a.bytes = b.bytes) : a = b := by
  cases a; cases b; cases h; rfl

instance : DecidableEq Address := fun a b =>
  if h : a.bytes = b.bytes then isTrue (ext h) else isFalse fun e => h (e ▸ rfl)

/-- The address of nobody. -/
def zero : Address := ⟨Bytes.zeros 20, by simp⟩

instance : Inhabited Address := ⟨zero⟩

/-- An address from its bytes, if there are twenty. -/
def ofBytes? (b : Bytes) : Option Address :=
  if h : b.length = 20 then some ⟨b, h⟩ else none

@[simp] theorem ofBytes?_bytes (a : Address) : ofBytes? a.bytes = some a := by
  simp [ofBytes?, a.size]

/-- An address from forty digits of either case after an optional `0x` or `0X`. -/
def ofChars? (cs : List Char) : Option Address := do
  let b ← Hex.decode? (Hex.dropMark cs)
  ofBytes? b

/-- An address from text. -/
def ofText? (s : String) : Option Address := ofChars? s.toList

/-- The address in the low twenty bytes of a number. -/
def ofWord (n : Nat) : Address := ⟨Bytes.ofNat 20 n, Bytes.length_ofNat 20 n⟩

/-- The address whose number, in digits without leading zeros, fills all forty places. -/
def ofNat? (n : Nat) : Option Address :=
  if Nat.pow 16 39 ≤ n ∧ n < Nat.pow 16 40 then some (ofWord n) else none

/-- The digits of an address with the letter case that its hash prescribes. -/
def checksum (b : Bytes) : List Char :=
  let digits := Hex.encode b
  let marks := Hex.encode (Keccak.hash (digits.map fun c => UInt8.ofNat c.toNat))
  List.zipWith (fun c m => if '8' ≤ m then c.toUpper else c) digits marks

/-- The text of an address in lower case. -/
def plainText (a : Address) : String := Hex.prefixed a.bytes

/-- The checksummed text of an address. -/
def text (a : Address) : String := String.ofList ('0' :: 'x' :: checksum a.bytes)

end Address

end EthBatch
