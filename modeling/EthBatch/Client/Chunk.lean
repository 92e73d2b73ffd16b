import EthBatch.Client

/-!
# One chunk

A chunk is one request. Its outcome is the list of answers, one for each sub-call, or the error
of the chunk with its place and size. A length in the answer that cannot be read at all is not
such an error; it ends the whole call.
-/

namespace EthBatch

namespace Client

/-- The answers in the output for a chunk of a given size. -/
def readOutput (size : Nat) (raw : Bytes) : Except Fault (Except ChunkProblem (List Answer)) :=
  match Aggregate.decode raw with
  | .error .empty => .ok (.error .emptyOutput)
  | .error (.undecodable f) =>
    if f.isDeclared then .ok (.error (.undecodable f)) else .error (.decode f)
  | .ok answers =>
    if answers.length = size then .ok (.ok answers)
    else .ok (.error (.wrongCount answers.length size))

/-- The place and size of a chunk in a problem with it. -/
def located (index : Int) (size : Nat) (p : ChunkProblem) : ChunkError := ⟨p, some index, some size⟩

/-- What a reaction means for a chunk; nothing, if there is none before the call is over. -/
def settleReaction (index : Int) (size : Nat) : Reaction → Option (Except Fault ChunkOutcome)
  | .hang => none
  | .fault text => some (.ok (.error (located index size (.request text))))
  | .answer raw =>
    some ((readOutput size raw).map fun r => r.mapError (located index size))

/-- The attempt to run a chunk: the request, unless there is none, and what came of it. -/
structure Attempt where
  request : Option Request
  /-- Nothing, if the request hangs. -/
  result : Option (Except Fault ChunkOutcome)

/-- Runs a chunk against a node. -/
def attempt [Platform] (c : Client) (react : Request → Reaction) (index : Int) (chunk : List Value)
    (address : Option Value) (deployless : Bool) (block : Value) : Attempt :=
  match c.request chunk address deployless block with
  | .error f =>
    ⟨none, some (.ok (.error (located index chunk.length (.unencodable f))))⟩
  | .ok r => ⟨some r, settleReaction index chunk.length (react r)⟩

end Client

end EthBatch
