import EthBatch.Error

/-!
# Results in the order of the calls

Each call is settled with the answer at its place in its chunk. The results of all chunks
together are in the order of the calls; the number of results so far says which call is next.
When failures are not allowed, the first one in this order is raised.
-/

namespace EthBatch

/-- Settles a call with the answer for it. The outer fault is one that no caller expects. -/
def Call.settle (c : Call) (a : Answer) : Except Fault CallResult :=
  match c.encoding with
  | .error f => .ok (.error (.encoding f))
  | .ok e =>
    if !a.success then
      match Revert.read a.data with
      | .ok r => .ok (.error (.reverted r))
      | .error f => .error (.decode f)
    else if a.data.isEmpty then .ok (.error (.noData c.fn))
    else match Call.decodeOutput e.function a.data with
      | .ok (.ok v) => .ok (.ok v)
      | .ok (.error f) => .ok (.error (.undecodable c.fn f))
      | .error f => .error f

namespace Reassembly

/-- Settles one call and raises its failure unless failures are allowed. -/
def settle (allowFailure : Bool) (c : Call) (a : Answer) : Except Error CallResult :=
  match c.settle a with
  | .error f => .error (.fault f)
  | .ok (.error f) => if allowFailure then .ok (.error f) else .error (.failure f)
  | .ok (.ok v) => .ok (.ok v)

/-- Settles the next calls with the answers of a chunk. There must be a call for each. -/
def settleAll (allowFailure : Bool) : List Call → List Answer → Except Error (List CallResult)
  | _, [] => .ok []
  | [], _ :: _ => .error (.fault .badIndex)
  | c :: cs, a :: as => do
    let r ← settle allowFailure c a
    let rs ← settleAll allowFailure cs as
    .ok (r :: rs)

/-- The results of chunks of given sizes, in order. -/
def collect (allowFailure : Bool) : List Call → List (Nat × ChunkOutcome) →
    Except Error (List CallResult)
  | _, [] => .ok []
  | calls, (size, .error e) :: rest =>
    if allowFailure then do
      let rs ← collect allowFailure (calls.drop size) rest
      .ok (List.replicate size (.error (.chunk e)) ++ rs)
    else .error (.failure (.chunk e))
  | calls, (_, .ok answers) :: rest => do
    let here ← settleAll allowFailure calls answers
    let rs ← collect allowFailure (calls.drop answers.length) rest
    .ok (here ++ rs)

end Reassembly

/-- The results of a list of calls from the outcomes of its chunks. -/
def reassemble (calls : List Call) (sizes : List Nat) (outcomes : List ChunkOutcome)
    (allowFailure : Bool) : Except Error (List CallResult) := do
  let results ← Reassembly.collect allowFailure calls (sizes.zip outcomes)
  if results.length = calls.length then .ok results
  else .error (.resultsMismatch (.int results.length) (.int calls.length))

end EthBatch
