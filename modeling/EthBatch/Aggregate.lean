import EthBatch.Call
import EthBatch.Plan

/-!
# The aggregator's interface

`aggregate3((address,bool,bytes)[])` takes a list of sub-calls and gives a list of
`(bool,bytes)`: for each of them whether it succeeded and the data it gave.

An aggregator need not be deployed. A wrapper is a constructor that is followed by
`(bytes code, bytes data)`. Sent without a recipient, it creates the code, calls it with the data
and returns the output.
-/

namespace EthBatch

/-- One call inside a chunk. -/
structure SubCall where
  target : Address
  allowFailure : Bool
  data : Bytes
  deriving DecidableEq

/-- What the aggregator reports on one sub-call. -/
structure Answer where
  success : Bool
  data : Bytes
  deriving DecidableEq, Repr

namespace SubCall

/-- A sub-call as a value of the aggregator's interface. -/
def toValue (c : SubCall) : Value :=
  .tuple [.text c.target.text, .bool c.allowFailure, .bytes c.data]

/-- The sub-call of a call. Each one may fail on its own. -/
def ofCall (c : Call) : SubCall := ⟨c.target, true, c.data⟩

/-- The cost of a sub-call in a chunk. -/
def cost (c : SubCall) : Nat := Plan.cost c.data

end SubCall

namespace Aggregate

open Abi

/-- The selector of `aggregate3((address,bool,bytes)[])`. -/
def selector : Bytes := [0x82, 0xad, 0x56, 0xcb]

/-- The type of a sub-call. -/
def callKind : Kind := .tuple [.address, .bool, .bytes]

/-- The type of an answer. -/
def answerKind : Kind := .tuple [.bool, .bytes]

/-- Calldata for the aggregator, the sub-calls being values of any kind. -/
def encode [Platform] (calls : List Value) : Except EncodeFault Bytes :=
  (Kind.encodeAll [.array callKind] [.list calls]).map (selector ++ ·)

/-- Why the aggregator's output is no list of answers. -/
inductive OutputFault where
  | empty
  | undecodable (cause : DecodeFault)
  deriving DecidableEq, Repr

/-- The answer that a decoded pair is. -/
def answerOf? : Value → Option Answer
  | .tuple [.bool success, .bytes data] => some ⟨success, data⟩
  | _ => none

/-- The answers in the aggregator's output. -/
def decode (raw : Bytes) : Except OutputFault (List Answer) :=
  if raw.isEmpty then .error .empty
  else match Kind.decodeAll [.array answerKind] raw with
    | .ok [.tuple vs] => .ok (vs.filterMap answerOf?)
    | .ok _ => .ok []
    | .error f => .error (.undecodable f)

/-- An answer as a value of the aggregator's interface. -/
def answerValue (a : Answer) : Value := .tuple [.bool a.success, .bytes a.data]

/-- The output of an aggregator that gives these answers. -/
def encodeAnswers [Platform] (answers : List Answer) : Except EncodeFault Bytes :=
  Kind.encodeAll [.array answerKind] [.list (answers.map answerValue)]

end Aggregate

namespace Deployless

open Abi

/-- The bytes of a foreign value: byte strings as they are, texts as hexadecimal. -/
def bytesOf : Value → Except Fault (Option Bytes)
  | .null => .ok none
  | .bytes b => .ok (some b)
  | .text s =>
    match Hex.read s.toList with
    | .ok b => .ok (some b)
    | .error f => .error (.ofHex f)
  | _ => .error .wrongKind

/-- The wrapper with its arguments. -/
def wrap [Platform] (wrapper : Bytes) (code data : Value) : Except EncodeFault Bytes :=
  (Kind.encodeAll [.bytes, .bytes] [code, data]).map (wrapper ++ ·)

end Deployless

end EthBatch
