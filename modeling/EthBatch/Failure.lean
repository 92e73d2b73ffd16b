import EthBatch.Aggregate
import EthBatch.Revert

/-!
# Failures

A call can fail on its own: it could not be encoded, the contract reverted, there was no output
or the output did not decode. Or its whole chunk failed, and then all its calls fail with one
`ChunkError`, which knows the place of the chunk and its size.
-/

namespace EthBatch

/-- The kinds of chunk failures that callers tell apart. -/
inductive ChunkFamily where
  | execution
  | timeout
  | output
  deriving DecidableEq, Repr, Inhabited

/-- Why a chunk has no answers. -/
inductive ChunkProblem where
  /-- The sub-calls have no encoding. -/
  | unencodable (cause : Abi.EncodeFault)
  /-- The request failed. -/
  | request (text : String)
  | emptyOutput
  | undecodable (cause : Abi.DecodeFault)
  | wrongCount (got expected : Nat)
  /-- The deadline passed. -/
  | timeout (seconds : Value)
  /-- A failure that is reported in someone else's words. -/
  | reported (family : ChunkFamily) (text : String)
  deriving Inhabited

/-- The failure of a chunk. -/
structure ChunkError where
  problem : ChunkProblem
  index : Option Int
  size : Option Int
  deriving Inhabited

namespace ChunkProblem

def family : ChunkProblem → ChunkFamily
  | .unencodable _ => .execution
  | .request _ => .execution
  | .emptyOutput => .output
  | .undecodable _ => .output
  | .wrongCount _ _ => .output
  | .timeout _ => .timeout
  | .reported family _ => family

/-- The wording of a problem. -/
def message : ChunkProblem → String
  | .unencodable _ => "failed to encode aggregate3"
  | .request text => "eth_call failed: " ++ text
  | .emptyOutput => "empty aggregate3 result"
  | .undecodable _ => "failed to decode aggregate3 result"
  | .wrongCount got expected =>
    "aggregate3 returned " ++ toString got ++ " results for " ++ toString expected ++ " calls"
  | .timeout seconds => "multicall timed out after " ++ seconds.shown ++ "s"
  | .reported _ text => text

/-- The fault behind a problem. -/
def cause? : ChunkProblem → Option Fault
  | .unencodable cause => some (.encode cause)
  | .request text => some (.node text)
  | .undecodable cause => some (.decode cause)
  | _ => none

end ChunkProblem

/-- Why a call has no value. -/
inductive Failure where
  | encoding (cause : EncodingFailure)
  | reverted (revert : Revert)
  /-- The call succeeded and gave no data. -/
  | noData (fn : Value)
  | undecodable (fn : Value) (cause : Fault)
  | chunk (error : ChunkError)
  deriving Inhabited

namespace Failure

/-- The wording of a failure. -/
def message : Failure → String
  | .encoding cause => cause.message
  | .reverted revert => revert.message
  | .noData fn =>
    "cannot decode zero data (0x) - the function may have reverted" ++
      (if fn.truthy then ": " ++ fn.written else "")
  | .undecodable fn _ => "failed to decode result for " ++ fn.written
  | .chunk error => error.problem.message

/-- The fault behind a failure. -/
def cause? : Failure → Option Fault
  | .encoding cause => some cause.cause
  | .undecodable _ cause => some cause
  | .chunk error => error.problem.cause?
  | _ => none

end Failure

/-- What became of a chunk. -/
abbrev ChunkOutcome := Except ChunkError (List Answer)

/-- What a call came to. -/
abbrev CallResult := Except Failure Value

end EthBatch
