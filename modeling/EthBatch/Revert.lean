import EthBatch.Abi.Decode

/-!
# Revert data

A contract that reverts may say why: by `Error(string)` with a text, or by `Panic(uint256)`
with a code. Data of any other shape, and data that do not decode, have no reason.
-/

namespace EthBatch

/-- The data of a reverted call and the reason read from them. -/
structure Revert where
  data : Bytes
  reason : Option String
  deriving DecidableEq, Repr

namespace Revert

open Abi

/-- The selector of `Error(string)`. -/
def errorSelector : Bytes := [0x08, 0xc3, 0x79, 0xa0]

/-- The selector of `Panic(uint256)`. -/
def panicSelector : Bytes := [0x4e, 0x48, 0x7b, 0x71]

/-- The code of a panic in at least two digits. -/
def panicText (code : Nat) : String :=
  let digits := Hex.ofNat code
  "Panic(0x" ++ String.ofList (List.replicate (2 - digits.length) '0' ++ digits) ++ ")"

/-- The text of the single value, if decoding gave one. -/
def reasonOf : List Value → Option String
  | [.text s] => some s
  | [.int n] => some (panicText n.toNat)
  | _ => none

/-- Decodes a payload of one type. Faults that the format declares mean that there is no
reason; others remain. -/
def payload (k : Kind) (data : Bytes) : Except DecodeFault (Option String) :=
  match Kind.decodeAll [k] data with
  | .ok vs => .ok (reasonOf vs)
  | .error f => if f.isDeclared then .ok none else .error f

/-- The reason that revert data state. -/
def reasonOfData (data : Bytes) : Except DecodeFault (Option String) :=
  if data.take 4 = errorSelector then payload .string (data.drop 4)
  else if data.take 4 = panicSelector then payload (.uint 256) (data.drop 4)
  else .ok none

/-- A number between zero and 255 as a byte. -/
def byteOfValue (v : Value) : Except Fault UInt8 :=
  match v.number? with
  | none => .error .wrongKind
  | some n => if 0 ≤ n && n < 256 then .ok (UInt8.ofNat n.toNat) else .error .badValue

/-- The data that a foreign value states: a byte string, a sequence of bytes, or a number of
zeros. -/
def dataOfValue (v : Value) : Except Fault Bytes :=
  match v.bytes?, v.number?, v with
  | some b, _, _ => .ok b
  | none, some n, _ =>
    if n < 0 then .error .badValue
    else if Nat.pow 2 63 ≤ n then .error .tooLarge
    else .ok (Bytes.zeros n.toNat)
  | none, none, .text _ => .error .wrongKind
  | none, none, v =>
    match v.items? with
    | some vs => vs.mapM byteOfValue
    | none => .error .wrongKind

/-- Reads revert data. -/
def read (data : Bytes) : Except DecodeFault Revert :=
  (reasonOfData data).map fun reason => ⟨data, reason⟩

/-- The data in the text that callers are shown them in. -/
def dataText (r : Revert) : String := Hex.prefixed r.data

/-- The wording for a reverted call: its reason if that is not empty, else its data if there
are any. -/
def message (r : Revert) : String :=
  match r.reason with
  | some reason =>
    if reason.isEmpty then withoutReason r.data else "contract reverted: " ++ reason
  | none => withoutReason r.data
where
  /-- The wording without a reason. -/
  withoutReason (data : Bytes) : String :=
    if data.isEmpty then "contract reverted"
    else "contract reverted with data: " ++ Hex.prefixed data

end Revert

end EthBatch
