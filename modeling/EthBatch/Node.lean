import EthBatch.Aggregate

/-!
# Nodes

A node answers read requests. What it does with a request is its reaction: an answer of bytes,
a fault, or nothing at all before the call is over. A node also knows the identifier of its
chain, unless asking for it fails.

Requests take time, and a call may have a deadline. Which requests are sent by then is left to the
slots that a call has, as a rule. Now and then the clock decides otherwise: the deadline may be over
before a chunk with a slot gets to send its request, and a slot that it frees may be taken once
more.
-/

namespace EthBatch

/-- A read request. Without a recipient the data are run as a constructor. -/
structure Request where
  recipient : Option Value
  data : Bytes
  /-- The block to read at, as the caller named it. -/
  block : Value

/-- What a node does with a request. -/
inductive Reaction where
  | answer (raw : Bytes)
  | fault (text : String)
  /-- No answer before the call is over. -/
  | hang

/-- How the requests of a client run. -/
inductive Style where
  | pool
  | tasks
  deriving DecidableEq, Repr

/-- A node, with the clock of the calls to it. The chunk index tells requests of one call apart. -/
structure Node where
  chain : Except String Value
  react : (chunk : Nat) → Request → Reaction
  /-- Is the request of a chunk sent in time? Nothing, if the slots decide that. -/
  clock : Style → (seconds : Value) → (chunk : Nat) → Option Bool

end EthBatch
