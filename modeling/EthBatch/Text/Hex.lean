import EthBatch.Bytes

/-!
# Hexadecimal text

Bytes are written with two lower-case digits each. Reading takes digits of either case.
-/

namespace EthBatch.Hex

/-- The lower-case digit for a number below 16. -/
def digit (n : Nat) : Char :=
  if n < 10 then Char.ofNat (48 + n) else Char.ofNat (87 + n)

/-- The value of a digit of either case. -/
def value? (c : Char) : Option Nat :=
  if '0' ≤ c ∧ c ≤ '9' then some (c.toNat - 48)
  else if 'a' ≤ c ∧ c ≤ 'f' then some (c.toNat - 87)
  else if 'A' ≤ c ∧ c ≤ 'F' then some (c.toNat - 55)
  else none

/-- Is the character a digit of either case? -/
def isDigit (c : Char) : Bool := (value? c).isSome

/-- Two digits per byte, high half first. -/
def encode (b : Bytes) : List Char :=
  b.flatMap fun x => [digit (x.toNat / 16), digit (x.toNat % 16)]

@[simp] theorem encode_nil : encode [] = [] := rfl

@[simp] theorem encode_cons (x : UInt8) (b : Bytes) :
    encode (x :: b) = digit (x.toNat / 16) :: digit (x.toNat % 16) :: encode b := rfl

/-- The digits of a byte string as text. -/
def text (b : Bytes) : String := String.ofList (encode b)

/-- The digits of a byte string after the customary `0x`. -/
def prefixed (b : Bytes) : String := "0x" ++ text b

/-- Reads pairs of digits; a lone digit or another character is refused. -/
def decode? : List Char → Option Bytes
  | [] => some []
  | [_] => none
  | a :: b :: rest => do
    let high ← value? a
    let low ← value? b
    let tail ← decode? rest
    some (UInt8.ofNat (high * 16 + low) :: tail)

/-- The number a run of digits denotes. -/
def toNat? (cs : List Char) : Option Nat :=
  cs.foldlM (fun n c => (value? c).map (n * 16 + ·)) 0

/-- The shortest digits of a number; zero has one digit. -/
def ofNat (n : Nat) : List Char :=
  if n < 16 then [digit n] else ofNat (n / 16) ++ [digit (n % 16)]

/-- The text without its leading `0x` or `0X`, if it has one. -/
def dropMark : List Char → List Char
  | '0' :: 'x' :: rest => rest
  | '0' :: 'X' :: rest => rest
  | cs => cs

/-- An optional mark and then digits only. The mark alone counts, the empty text does not. -/
def isHex (cs : List Char) : Bool :=
  !cs.isEmpty && (dropMark cs).all isDigit

/-- Why a text could not be read as bytes. -/
inductive Fault where
  | notAscii
  | notHex
  deriving DecidableEq, Repr

/-- Bytes from marked or bare digits; an odd number of characters gets a zero in front. -/
def read (cs : List Char) : Except Fault Bytes :=
  let digits := if cs.length % 2 = 1 then '0' :: dropMark cs else dropMark cs
  if digits.any (fun c => c.toNat ≥ 128) then .error .notAscii
  else match decode? digits with
    | some b => .ok b
    | none => .error .notHex

end EthBatch.Hex
