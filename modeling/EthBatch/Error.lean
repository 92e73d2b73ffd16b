import EthBatch.Evm.Program
import EthBatch.Failure
import EthBatch.Settings.Fault

/-!
# Errors

An error ends an operation. It is a fault of what was handed in, the failure of a call that was
not allowed to fail, or one of the conditions of the client itself. All wording of the latter
is in `Error.message?`.
-/

namespace EthBatch

/-- Why an operation gave no result. -/
inductive Error where
  | fault (cause : Fault)
  | failure (cause : Failure)
  | assembly (cause : Evm.AssemblyFault)
  | settings (fields : List Settings.FieldFault)
  /-- The client knows no chain. -/
  | chainNotConfigured
  /-- There is no aggregator on the chain, or none yet at the block. -/
  | chainUnsupported (chain contract block : Value)
  | deploylessNotConfigured (missing : Value)
  | resultsMismatch (got expected : Value)
  /-- Neither a connection nor the other possible source was given. -/
  | missingSource (constructor source : String)
  /-- A list of calls holds something of another kind. -/
  | notACall (kind : String)
  /-- A facade has no function of the name. -/
  | noFunction (name : String)
  | cancelled
  deriving Inhabited

namespace Error

/-- The values that the wording of an error shows. -/
def subjects : Error → List Value
  | .chainUnsupported chain contract block => [chain, contract, block]
  | .deploylessNotConfigured missing => [missing]
  | .resultsMismatch got expected => [got, expected]
  | _ => []

/-- An error is worded when it is made. It gives way to a bad value if that cannot be done. -/
def worded (e : Error) : Error :=
  if e.subjects.all Value.isWritable then e else .fault .badValue

/-- The wording of the errors that have one. -/
def message? : Error → Option String
  | .fault cause => cause.message?
  | .failure cause => some cause.message
  | .assembly (.duplicateLabel name) => some ("duplicate label " ++ Text.Quoted.text name)
  | .chainNotConfigured => some "chain not configured on client"
  | .chainUnsupported chain contract block =>
    let place := "chain " ++ chain.shown ++ " does not support " ++ contract.shown
    some (match block with
      | .null => place
      | block => place ++ " at block " ++ block.shown)
  | .deploylessNotConfigured missing =>
    some ("deployless multicall requires " ++ missing.shown ++ " to be configured")
  | .resultsMismatch got expected =>
    some ("multicall results mismatch: got " ++ got.shown ++ ", expected " ++ expected.shown)
  | .missingSource constructor source =>
    some (constructor ++ "() missing 1 required argument: 'w3' or '" ++ source ++
      "' (at least one required)")
  | .notACall kind => some ("calls must be Call or ContractFunction objects, got " ++ kind)
  | .noFunction name =>
    some ("The function '" ++ name ++ "' was not found in this contract's abi.")
  | _ => none

end Error

end EthBatch
