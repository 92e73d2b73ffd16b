import EthBatch.Node

/-!
# Scripted nodes

A scripted node reads the sub-calls out of a request and answers each by the first rule that
fits its target and its calldata; what no rule fits has failed without data. Single chunks can
be given a fault instead.
-/

namespace EthBatch

namespace Aggregate

open Abi

/-- The sub-call that a decoded triple is. -/
def subCallOf? : Value → Option SubCall
  | .tuple [.text target, .bool allowFailure, .bytes data] =>
    (Address.ofText? target).map fun a => ⟨a, allowFailure, data⟩
  | _ => none

/-- The sub-calls in calldata for the aggregator. -/
def decodeCalls? (data : Bytes) : Option (List SubCall) :=
  if data.take 4 = selector then
    match Kind.decodeAll [.array callKind] (data.drop 4) with
    | .ok [.tuple vs] => vs.mapM subCallOf?
    | _ => none
  else none

/-- The code and the calldata behind a wrapper. -/
def unwrap? (wrapper data : Bytes) : Option (Bytes × Bytes) :=
  if data.take wrapper.length = wrapper then
    match Kind.decodeAll [.bytes, .bytes] (data.drop wrapper.length) with
    | .ok [.bytes code, .bytes inner] => some (code, inner)
    | _ => none
  else none

end Aggregate

/-- The sub-calls that a request carries, wrapped or not. -/
def Request.calls? (wrapper : Bytes) (r : Request) : Option (List SubCall) :=
  match r.recipient with
  | some _ => Aggregate.decodeCalls? r.data
  | none => (Aggregate.unwrap? wrapper r.data).bind fun p => Aggregate.decodeCalls? p.2

namespace Node

/-- The output for a list of answers. -/
def output [Platform] (answers : List Answer) : Reaction :=
  match Aggregate.encodeAnswers answers with
  | .ok raw => .answer raw
  | .error _ => .fault "unencodable answers"

/-- What a node makes of a request that answers each sub-call by its target and its calldata,
given the wrapper that deployless requests use. -/
def answers (answer : Address → Bytes → Answer) (wrapper : Bytes) (r : Request) : List Answer :=
  ((r.calls? wrapper).getD []).map fun c => answer c.target c.data

/-- A rule: which sub-calls it fits and what they give. -/
structure Rule where
  /-- The address it fits; any, if absent. -/
  target : Option String
  /-- How the calldata must begin. -/
  start : Bytes
  answer : Answer

/-- What happens to the request of a chunk instead of a plain answer. -/
inductive Mishap where
  | fault (text : String)
  | raw (data : Bytes)
  /-- The last answers are left out and others are appended. -/
  | miscount (dropped extra : Nat)
  | hang

/-- The rules of a node and its mishaps by chunk. -/
structure Script where
  rules : List Rule
  mishaps : List (Nat × Mishap)

/-- A text with its capital letters made small. -/
def lowered (s : String) : List Char := s.toList.map Char.toLower

/-- Does a rule fit a sub-call? Letter case does not matter in an address. -/
def Rule.fits (r : Rule) (target : Address) (data : Bytes) : Bool :=
  (match r.target with
    | some t => lowered t == lowered target.text
    | none => true) && r.start.isPrefixOf data

namespace Script

/-- The answer to one sub-call. -/
def answer (s : Script) (target : Address) (data : Bytes) : Answer :=
  match s.rules.find? (·.fits target data) with
  | some r => r.answer
  | none => ⟨false, []⟩

/-- The answers that are appended to miscounted ones. -/
def surplus : Answer := ⟨true, [1]⟩

/-- The reaction to a request. -/
def react [Platform] (s : Script) (wrapper : Bytes) (chunk : Nat) (r : Request) : Reaction :=
  let answers := answers s.answer wrapper r
  match s.mishaps.lookup chunk with
  | none => output answers
  | some (.fault text) => .fault text
  | some (.raw data) => .answer data
  | some .hang => .hang
  | some (.miscount dropped extra) =>
    output (answers.take (answers.length - dropped) ++ List.replicate extra surplus)

end Script

end Node

end EthBatch
