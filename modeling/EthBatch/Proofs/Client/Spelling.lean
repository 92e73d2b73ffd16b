import EthBatch.Proofs.Call.Making
import EthBatch.Proofs.Client.Run

/-!
# The spelling of a target

A call keeps its address as it was given, and nothing that happens to the call looks at it again. So
calls that are made for two spellings of one account run alike.
-/

namespace EthBatch

open Except

namespace Call

/-- A call with its address in another spelling. -/
def spelled (address : Value) (c : Call) : Call := { c with address }

variable {target other interface fn args kwargs : Value} {account : Address}

theorem refuse_spelled {named : Option Fields} {failure : EncodingFailure} :
    refuse other fn args named account failure =
      (refuse target fn args named account failure).map (spelled other) := by
  unfold refuse
  split <;> rfl

/-- Calls that are made for two spellings of an account differ in the spelling only. -/
theorem make_spelled [Platform] (valid : Address.ofValue target = .ok account)
    (valid' : Address.ofValue other = .ok account) :
    make other interface fn args kwargs =
      (make target interface fn args kwargs).map (spelled other) := by
  cases names : byName kwargs with
  | error f =>
      rw [make, make, names]
      rfl
  | ok named =>
      simp only [make_eq names, valid, valid']
      cases functionsOf interface with
      | error cause => cases cause <;> first | rfl | exact refuse_spelled
      | ok functions =>
          dsimp only
          split <;> first | rfl | exact refuse_spelled

end Call

variable (address : Value)

/-- The results of calls do not depend on the spelling of their addresses. -/
theorem Reassembly.settleAll_spelled (allowFailure : Bool) (calls : List Call)
    (answers : List Answer) :
    settleAll allowFailure (calls.map (Call.spelled address)) answers =
      settleAll allowFailure calls answers := by
  induction answers generalizing calls with
  | nil => cases calls <;> rfl
  | cons a answers ih =>
      cases calls with
      | nil => rfl
      | cons c calls =>
          rw [List.map_cons, settleAll, settleAll, ih]
          rfl

theorem Reassembly.collect_spelled (allowFailure : Bool) (calls : List Call)
    (chunks : List (Nat × ChunkOutcome)) :
    collect allowFailure (calls.map (Call.spelled address)) chunks =
      collect allowFailure calls chunks := by
  induction chunks generalizing calls with
  | nil => cases calls <;> rfl
  | cons chunk chunks ih =>
      obtain ⟨size, e | answers⟩ := chunk
      · simp only [collect, ← List.map_drop, ih]
      · simp only [collect, ← List.map_drop, ih, settleAll_spelled]

theorem reassemble_spelled (calls : List Call) (sizes : List Nat) (outcomes : List ChunkOutcome)
    (allowFailure : Bool) :
    reassemble (calls.map (Call.spelled address)) sizes outcomes allowFailure =
      reassemble calls sizes outcomes allowFailure := by
  simp only [reassemble, Reassembly.collect_spelled, List.length_map]

namespace Client

theorem encodingLog_spelled (calls : List Call) :
    encodingLog (calls.map (Call.spelled address)) = encodingLog calls := by
  simp only [encodingLog, List.zipIdx_map, List.filterMap_map, List.all_map]
  rfl

theorem plan_spelled (calls : List Call) (batchSize : Value) :
    plan (calls.map (Call.spelled address)) batchSize = plan calls batchSize := by
  simp only [plan, List.map_map]
  rfl

theorem planned_spelled (calls : List Call) (batchSize : Value) :
    planned (calls.map (Call.spelled address)) batchSize = planned calls batchSize := by
  rw [planned, planned, plan_spelled, List.length_map]

/-- A run does not depend on the spelling of the addresses. -/
theorem call_spelled [Platform] (c : Client) (node : Node) (calls : List Call)
    (options : CallOptions) (cancelAfter : Option Nat) :
    c.call node ((calls.map (Call.spelled address)).map .call) options cancelAfter =
      c.call node (calls.map .call) options cancelAfter := by
  simp only [call, prepare_map, List.isEmpty_map, encodingLog_spelled, planned_spelled,
    runChunks, reassemble_spelled]

end Client

end EthBatch
