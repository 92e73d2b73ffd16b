import EthBatch.Abi.Kind
import EthBatch.Fault

/-!
# Decoding strictly

A decoder is given the data from the start of a value to the end of everything. Padding must
be zero, truth values zero or one, and byte strings must be there in full with their padding.
Before a container is decoded, its head is checked from left to right: each offset must lead
behind the head and not behind the data, and each static component must decode. What stands
behind a value is ignored.

The decoder gives addresses in lower case, and arrays and tuples alike as tuples. `Kind.present`
tells them apart again and writes addresses with their checksum.
-/

namespace EthBatch.Abi

/-- The number in the first word. -/
def readWord (data : Bytes) : Except DecodeFault Nat :=
  if (data.take 32).length = 32 then .ok (Bytes.toNat (data.take 32)) else .error .short

/-- A number of the given width, the unused high bits being zero. -/
def readUint (bits : Nat) (data : Bytes) : Except DecodeFault Nat := do
  let n ← readWord data
  if n < Nat.pow 2 bits then .ok n else .error .padding

/-- A signed number of the given width, the unused high bits repeating its sign. -/
def readInt (bits : Nat) (data : Bytes) : Except DecodeFault Int := do
  let n ← readWord data
  if n < Nat.pow 2 (bits - 1) then .ok n
  else if Nat.pow 2 256 - Nat.pow 2 (bits - 1) ≤ n then .ok (n - Nat.pow 2 256)
  else .error .padding

/-- A length and that many bytes, padded to a whole number of words. -/
def readBytes (data : Bytes) : Except DecodeFault Bytes := do
  let length ← readWord data
  let padded := Bytes.ceil32 length
  if Nat.pow 2 63 ≤ padded then .error .tooLong
  else
    let body := (data.drop 32).take padded
    if body.length < padded then .error .short
    else if (body.drop length).any (· ≠ 0) then .error .padding
    else .ok (body.take length)

/-- The offset in the first word, checked against the size of the head and of the data. -/
def readOffset (head : Nat) (frame data : Bytes) : Except DecodeFault Nat := do
  let p ← readWord data
  if p < head || frame.length ≤ p then .error .pointer else .ok p

/-- Checks the offsets at the start of the data, one for each of `n` items. -/
def checkOffsets (head : Nat) (frame : Bytes) : (n : Nat) → Bytes → Except DecodeFault Unit
  | 0, _ => .ok ()
  | n + 1, data => do
    let _ ← readOffset head frame data
    checkOffsets head frame n (data.drop 32)

/-- Decodes `n` items that stand one after the other. -/
def readEach (size : Nat) (item : Bytes → Except DecodeFault Value) :
    (n : Nat) → Bytes → Except DecodeFault (List Value)
  | 0, _ => .ok []
  | n + 1, data => do
    let v ← item data
    let vs ← readEach size item n (data.drop size)
    .ok (v :: vs)

/-- Decodes `n` items that are reached by offsets from the start of the frame. -/
def followEach (item : Bytes → Except DecodeFault Value) (frame : Bytes) :
    (n : Nat) → Bytes → Except DecodeFault (List Value)
  | 0, _ => .ok []
  | n + 1, data => do
    let p ← readWord data
    let v ← item (frame.drop p)
    let vs ← followEach item frame n (data.drop 32)
    .ok (v :: vs)

/-- Decodes `n` items of an array whose head is at the start of the frame. -/
def readItems (k : Kind) (item : Bytes → Except DecodeFault Value) (n : Nat) (frame : Bytes) :
    Except DecodeFault (List Value) := do
  if k.isDynamic then
    checkOffsets (32 * n) frame n frame
    followEach item frame n frame
  else readEach k.staticSize item n frame

namespace Kind

/-- The number of words that the components of a tuple count for. -/
def headCounts (ks : List Kind) : Nat := (ks.map headCount).foldr (· + ·) 0

mutual

/-- The value of a type at the start of the data. -/
def decode : Kind → Bytes → Except DecodeFault Value
  | .uint bits, data => (readUint bits data).map fun n => .int n
  | .int bits, data => (readInt bits data).map .int
  | .bool, data => do
    let n ← readWord data
    if n = 0 then .ok (.bool false) else if n = 1 then .ok (.bool true) else .error .padding
  | .address, data => do
    let n ← readUint 160 data
    .ok (.text (Address.ofWord n).plainText)
  | .fixed isSigned bits places, data => do
    let n ← if isSigned then readInt bits data else (readUint bits data).map Int.ofNat
    .ok (.decimal (.finite (n < 0) n.natAbs (-(places : Int))))
  | .bytesOf n, data => do
    let _ ← readWord data
    let body := data.take 32
    if (body.drop n).any (· ≠ 0) then .error .padding else .ok (.bytes (body.take n))
  | .bytes, data => (readBytes data).map .bytes
  | .string, data => do
    let b ← readBytes data
    match Text.Utf8.decode? b with
    | some s => .ok (.text s)
    | none => .error .notUtf8
  | .vector n k, data => (readItems k (decode k) n data).map .tuple
  | .array k, data => do
    let n ← readWord data
    let vs ← readItems k (decode k) n (data.drop 32)
    .ok (.tuple vs)
  | .tuple ks, data => do
    checkHead (32 * headCounts ks) data ks data
    let vs ← decodeFields data ks data
    .ok (.tuple vs)

/-- Checks the head of a tuple. -/
def checkHead (head : Nat) (frame : Bytes) : List Kind → Bytes → Except DecodeFault Unit
  | [], _ => .ok ()
  | k :: ks, data => do
    if k.isDynamic then
      let _ ← readOffset head frame data
    else
      let _ ← decode k data
    checkHead head frame ks (data.drop k.headSize)

/-- Decodes the components of a tuple. -/
def decodeFields (frame : Bytes) : List Kind → Bytes → Except DecodeFault (List Value)
  | [], _ => .ok []
  | k :: ks, data => do
    let v ← if k.isDynamic then do
        let p ← readWord data
        decode k (frame.drop p)
      else decode k data
    let vs ← decodeFields frame ks (data.drop k.headSize)
    .ok (v :: vs)

end

/-- The values of a list of types, which is decoded as a tuple. -/
def decodeAll (ks : List Kind) (data : Bytes) : Except DecodeFault (List Value) := do
  checkHead (32 * headCounts ks) data ks data
  decodeFields data ks data

mutual

/-- A decoded value as callers see it: arrays are lists, and addresses carry their checksum. -/
def present : Kind → Value → Value
  | .address, .text s => .text (((Address.ofText? s).map Address.text).getD s)
  | .vector _ k, .tuple vs => .list (vs.map (present k))
  | .array k, .tuple vs => .list (vs.map (present k))
  | .tuple ks, .tuple vs => .tuple (presentEach ks vs)
  | _, v => v

def presentEach : List Kind → List Value → List Value
  | k :: ks, v :: vs => present k v :: presentEach ks vs
  | _, _ => []

end

end Kind

end EthBatch.Abi
