import EthBatch.Abi.Kind
import EthBatch.Fault

/-!
# Encoding values

A container is written as a head and a tail. A component of static size stands in the head; a
dynamic one stands in the tail, and the head holds its distance from the start of the head.
`Layout.join` puts the parts of a container together, `Kind.encode` writes a value.
-/

namespace EthBatch.Abi

namespace Layout

/-- The encoding of one component, and whether it belongs in the tail. -/
structure Part where
  inTail : Bool
  body : Bytes
  deriving DecidableEq, Repr

/-- Bytes that a part takes in the head. -/
def Part.headSize (p : Part) : Nat := if p.inTail then 32 else p.body.length

/-- The size of the head of a container. -/
def headSize (ps : List Part) : Nat := (ps.map Part.headSize).foldr (· + ·) 0

/-- The head, given where the tail of the first part begins. -/
def head : List Part → (offset : Nat) → Bytes
  | [], _ => []
  | p :: ps, offset =>
    if p.inTail then Bytes.word offset ++ head ps (offset + p.body.length)
    else p.body ++ head ps offset

/-- The tail: the bodies of the parts that belong there, in order. -/
def tail (ps : List Part) : Bytes := ps.flatMap fun p => if p.inTail then p.body else []

/-- The encoding of a container from its parts. -/
def join (ps : List Part) : Bytes := head ps (headSize ps) ++ tail ps

end Layout

/-- The whole units of `10 ^ -places` in a decimal without its sign, and whether they are all
of it. -/
def units (coefficient : Nat) (exponent : Int) (places : Nat) : Nat × Bool :=
  let e := exponent + places
  if 0 ≤ e then (coefficient * Nat.pow 10 e.toNat, true)
  else (coefficient / Nat.pow 10 (-e).toNat, coefficient % Nat.pow 10 (-e).toNat = 0)

/-- The word of a fixed-point number. A positive number must be exact, a negative one is cut
toward zero; one that is cut to zero keeps its set bits above the last byte. -/
def encodeFixed (isSigned : Bool) (bits places : Nat) (negative : Bool) (coefficient : Nat)
    (exponent : Int) : Except EncodeFault Bytes :=
  if coefficient = 0 then .ok (Bytes.word 0)
  else if (Number.digits coefficient).length + exponent > 100 then .error .outOfBounds
  else
    let (whole, exact) := units coefficient exponent places
    if negative then
      let bound := if isSigned then Nat.pow 2 (bits - 1) else 0
      if whole > bound || (whole = bound && !exact) then .error .outOfBounds
      else if whole = 0 then .ok (Bytes.padStart 0xff [0])
      else .ok (Bytes.word (Nat.pow 2 256 - whole))
    else
      let bound := if isSigned then Nat.pow 2 (bits - 1) - 1 else Nat.pow 2 bits - 1
      if whole > bound || (whole = bound && !exact) then .error .outOfBounds
      else if exact then .ok (Bytes.word whole)
      else .error .illegal

namespace Kind

/-- The word of a whole number. -/
def encodeInt (low high : Int) (v : Value) : Except EncodeFault Bytes :=
  match v with
  | .int n =>
    if n < low || high < n then .error .outOfBounds
    else .ok (Bytes.word (n % Nat.pow 2 256).toNat)
  | _ => .error .wrongKind

/-- A length and the padded bytes. -/
def encodeBytes (b : Bytes) : Bytes := Bytes.word b.length ++ Bytes.padEnd b

/-- The twenty bytes that a value denotes as an address argument. -/
def addressBytes? : Value → Option Bytes
  | .text s => (Address.ofText? s).map Address.bytes
  | .bytes b => if b.length = 20 then some b else none
  | .buffer b => if b.length = 20 then some b else none
  | _ => none

/-- Does the encoder take an address argument as it is spelled? -/
def isTaken [Platform] : Value → Bool
  | .text s => Platform.takes s
  | _ => true

/-- A component of a container. -/
def part (k : Kind) (body : Bytes) : Layout.Part := ⟨k.isDynamic, body⟩

/-- Applies an encoder to every item. -/
def encodeEach (encodeItem : Value → Except EncodeFault Bytes) (k : Kind) :
    List Value → Except EncodeFault (List Layout.Part)
  | [] => .ok []
  | v :: vs => do
    let body ← encodeItem v
    let parts ← encodeEach encodeItem k vs
    .ok (k.part body :: parts)

mutual

/-- The encoding of a value of a type. -/
def encode [Platform] : Kind → Value → Except EncodeFault Bytes
  | .uint bits, v => encodeInt 0 (Nat.pow 2 bits - 1) v
  | .int bits, v => encodeInt (-Nat.pow 2 (bits - 1)) (Nat.pow 2 (bits - 1) - 1) v
  | .bool, v =>
    match v with
    | .bool b => .ok (Bytes.word (if b then 1 else 0))
    | _ => .error .wrongKind
  | .address, v =>
    match addressBytes? v with
    | some b => if isTaken v then .ok (Bytes.padStart 0 b) else .error .wrongKind
    | none => .error .wrongKind
  | .fixed isSigned bits places, v =>
    match v with
    | .int n => encodeFixed isSigned bits places (n < 0) n.natAbs 0
    | .decimal (.finite negative c e) => encodeFixed isSigned bits places negative c e
    | .decimal _ => .error .illegal
    | _ => .error .wrongKind
  | .bytesOf n, v =>
    match v.bytes? with
    | some b => if n < b.length then .error .outOfBounds else .ok (b ++ Bytes.zeros (32 - b.length))
    | none => .error .wrongKind
  | .bytes, v =>
    match v.bytes? with
    | some b => .ok (encodeBytes b)
    | none => .error .wrongKind
  | .string, v =>
    match v with
    | .text s => .ok (encodeBytes (Text.Utf8.encode s))
    | _ => .error .wrongKind
  | .vector n k, v =>
    match v.sequence? with
    | some vs =>
      if vs.length = n then (encodeEach (encode k) k vs).map Layout.join
      else .error .outOfBounds
    | none => .error .wrongKind
  | .array k, v =>
    match v.sequence? with
    | some vs =>
      (encodeEach (encode k) k vs).map fun ps => Bytes.word vs.length ++ Layout.join ps
    | none => .error .wrongKind
  | .tuple ks, v =>
    match v.sequence? with
    | some vs =>
      if vs.length = ks.length then (encodeFields ks vs).map Layout.join
      else .error .outOfBounds
    | none => .error .wrongKind

/-- The parts of a tuple. -/
def encodeFields [Platform] : List Kind → List Value → Except EncodeFault (List Layout.Part)
  | k :: ks, v :: vs => do
    let body ← encode k v
    let parts ← encodeFields ks vs
    .ok (k.part body :: parts)
  | _, _ => .ok []

end

/-- The encoding of a list of values, which is that of a tuple. -/
def encodeAll [Platform] (ks : List Kind) (vs : List Value) : Except EncodeFault Bytes :=
  encode (.tuple ks) (.tuple vs)

/-- Does the value have an encoding? -/
def accepts [Platform] (k : Kind) (v : Value) : Bool := (k.encode v).isOk

end Kind

end EthBatch.Abi
