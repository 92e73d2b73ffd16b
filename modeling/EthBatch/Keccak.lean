import EthBatch.Bytes

/-!
# Keccak-256

The hash from which function selectors and the letter case of addresses are derived: the
sponge over the 1600-bit permutation with a rate of 136 bytes and the padding `1 0* 1`.
The state is 25 lanes of 64 bits; lane `(x, y)` has the index `x + 5 * y`.
-/

namespace EthBatch.Keccak

/-- The 25 lanes of a state. -/
abbrev State := Array UInt64

/-- One lane; a state has a lane at every index below 25. -/
def lane (s : State) (i : Nat) : UInt64 := s.getD i 0

/-- The state whose lanes are given by their index. -/
def build (f : Nat → UInt64) : State := Array.ofFn fun i : Fin 25 => f i

def rotateLeft (w : UInt64) (k : Nat) : UInt64 :=
  if k = 0 then w else (w <<< UInt64.ofNat k) ||| (w >>> UInt64.ofNat (64 - k))

/-- Rotation distance of each lane, by index. -/
def distances : Array Nat := #[
  0, 1, 62, 28, 27, 36, 44, 6, 55, 20, 3, 10, 43, 25, 39, 41, 45, 15, 21, 8, 18, 2, 61, 56, 14]

/-- The constant that each round adds to the first lane. -/
def roundConstants : List UInt64 := [
  0x0000000000000001, 0x0000000000008082, 0x800000000000808a, 0x8000000080008000,
  0x000000000000808b, 0x0000000080000001, 0x8000000080008081, 0x8000000000008009,
  0x000000000000008a, 0x0000000000000088, 0x0000000080008009, 0x000000008000000a,
  0x000000008000808b, 0x800000000000008b, 0x8000000000008089, 0x8000000000008003,
  0x8000000000008002, 0x8000000000000080, 0x000000000000800a, 0x800000008000000a,
  0x8000000080008081, 0x8000000000008080, 0x0000000080000001, 0x8000000080008008]

/-- Adds to every lane the parity of two neighbouring columns. -/
def mixColumns (s : State) : State :=
  let column (x : Nat) : UInt64 :=
    lane s x ^^^ lane s (x + 5) ^^^ lane s (x + 10) ^^^ lane s (x + 15) ^^^ lane s (x + 20)
  let sums : Array UInt64 := Array.ofFn fun i : Fin 5 => column i
  let effect : Array UInt64 := Array.ofFn fun i : Fin 5 =>
    sums.getD ((i.val + 4) % 5) 0 ^^^ rotateLeft (sums.getD ((i.val + 1) % 5) 0) 1
  build fun i => lane s i ^^^ effect.getD (i % 5) 0

/-- Rotates every lane by its distance and moves it: lane `(x, y)` comes from
`(x + 3 * y, x)`. -/
def rotateLanes (s : State) : State :=
  build fun i =>
    let source := (i % 5 + 3 * (i / 5)) % 5 + 5 * (i % 5)
    rotateLeft (lane s source) (distances.getD source 0)

/-- Combines every lane with its two right neighbours in the row. -/
def combineRows (s : State) : State :=
  build fun i =>
    let row := i / 5 * 5
    lane s i ^^^ ((~~~ lane s (row + (i + 1) % 5)) &&& lane s (row + (i + 2) % 5))

def round (s : State) (constant : UInt64) : State :=
  let t := combineRows (rotateLanes (mixColumns s))
  t.setIfInBounds 0 (lane t 0 ^^^ constant)

/-- The 24 rounds. -/
def permute (s : State) : State := roundConstants.foldl round s

/-- The bytes that are absorbed between two permutations. -/
def rate : Nat := 136

/-- The message with its padding: at least one byte, up to a whole number of blocks. -/
def pad (message : Bytes) : Bytes :=
  let gap := rate - message.length % rate
  if gap = 1 then message ++ [0x81]
  else message ++ [0x01] ++ Bytes.zeros (gap - 2) ++ [0x80]

/-- Eight bytes as a lane, least significant first. -/
def laneOfBytes (b : Bytes) : UInt64 :=
  b.foldr (fun x w => (w <<< 8) ||| x.toUInt64) 0

/-- A lane as eight bytes, least significant first. -/
def bytesOfLane (w : UInt64) : Bytes :=
  [w, w >>> 8, w >>> 16, w >>> 24, w >>> 32, w >>> 40, w >>> 48, w >>> 56].map UInt64.toUInt8

/-- Adds one block to the state and permutes. -/
def absorb (s : State) (block : Bytes) : State :=
  permute (build fun i => lane s i ^^^ laneOfBytes ((block.drop (8 * i)).take 8))

/-- Absorbs `count` blocks from the front of the message. -/
def absorbAll : (count : Nat) → State → Bytes → State
  | 0, s, _ => s
  | count + 1, s, message => absorbAll count (absorb s (message.take rate)) (message.drop rate)

/-- The 32-byte hash of a message. -/
def hash (message : Bytes) : Bytes :=
  let padded := pad message
  let s := absorbAll (padded.length / rate) (build fun _ => 0) padded
  [0, 1, 2, 3].flatMap fun i => bytesOfLane (lane s i)

@[simp] theorem length_bytesOfLane (w : UInt64) : (bytesOfLane w).length = 8 := rfl

@[simp] theorem length_hash (message : Bytes) : (hash message).length = 32 := by
  simp [hash]

end EthBatch.Keccak
