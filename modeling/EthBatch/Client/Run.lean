import EthBatch.Client.Schedule
import EthBatch.Log
import EthBatch.Reassembly

/-!
# Running a list of calls

`Client.call` decides on the destination, packs the calls into chunks, runs the chunks and puts
the results in the order of the calls. A run shows how it ended, which requests the node got,
and what was logged.
-/

namespace EthBatch

/-- What stands in a list of calls: a call, or something of another kind. -/
inductive CallItem where
  | call (c : Call)
  | other (kind : String)

/-- The options of a run; what is not given is null and comes from the settings. -/
structure CallOptions where
  allowFailure : Value := .bool true
  batchSize : Value := .null
  deployless : Value := .null
  address : Value := .null
  block : Value := .text "latest"
  maxConcurrentChunks : Value := .null
  timeout : Value := .null

namespace CallOptions

/-- Sets the option of a name. -/
def set (o : CallOptions) (name : String) (v : Value) : Except Fault CallOptions :=
  match name with
  | "allow_failure" => .ok { o with allowFailure := v }
  | "batch_size" => .ok { o with batchSize := v }
  | "deployless" => .ok { o with deployless := v }
  | "multicall_address" => .ok { o with address := v }
  | "block_identifier" => .ok { o with block := v }
  | "max_concurrent_chunks" => .ok { o with maxConcurrentChunks := v }
  | "timeout" => .ok { o with timeout := v }
  | _ => .error .wrongKind

/-- Options by name; a name that is no option is refused. -/
def ofFields (fs : Fields) : Except Fault CallOptions :=
  fs.foldlM (fun o f => o.set f.1 f.2) {}

/-- The options with what the settings say in place of nothing. -/
def within (o : CallOptions) (s : Settings) : CallOptions :=
  { o with
    batchSize := o.batchSize.orElse (.int s.batchSize)
    deployless := o.deployless.orElse (.bool s.deployless)
    maxConcurrentChunks := o.maxConcurrentChunks.orElse (.int s.maxConcurrentChunks)
    timeout := o.timeout.orElse (match s.timeout with
      | some x => .float x
      | none => .null) }

end CallOptions

/-- How a run ended. -/
inductive RunOutcome where
  | returned (results : List CallResult)
  | raised (error : Error)
  /-- The run does not end. -/
  | pending

/-- A run of a list of calls. -/
structure Run where
  outcome : RunOutcome
  /-- The requests by chunk. -/
  requests : List (Nat × Request)
  log : List Log.Record

namespace Run

/-- A run that ended before any request. -/
def early (outcome : RunOutcome) (log : List Log.Record) : Run := ⟨outcome, [], log⟩

end Run

namespace Client

/-- The calls in a list; the first thing of another kind is refused. -/
def prepare : List CallItem → Except Error (List Call)
  | [] => .ok []
  | .other kind :: _ => .error (.notACall kind)
  | .call c :: rest => do
    let cs ← prepare rest
    .ok (c :: cs)

/-- Can a call that could not be encoded be reported? Its record shows the name of the function. -/
def isReportable (call : Call) : Bool := call.error?.isNone || call.fn.isWritable

/-- A record for each call that could not be encoded. -/
def encodingLog (calls : List Call) : Except Fault (List Log.Record) :=
  if calls.all isReportable then
    .ok (calls.zipIdx.filterMap fun (c, i) => c.error?.map fun f =>
      ⟨.debug, Log.poolLogger,
        "call " ++ toString i ++ " (" ++ c.fn.shown ++ ") failed to encode: " ++ f.message⟩)
  else .error .badValue

/-- The record of a plan, which shows the budget. -/
def planLog (chunks calls : Nat) (batchSize : Value) : Except Fault Log.Record :=
  if batchSize.isWritable then
    .ok ⟨.debug, Log.poolLogger,
      "planned " ++ toString chunks ++ " chunk(s) for " ++ toString calls ++
        " call(s), batch_size=" ++ batchSize.shown⟩
  else .error .badValue

/-- The logger of a style. -/
def logger : Style → String
  | .pool => Log.poolLogger
  | .tasks => Log.taskLogger

/-- A record for each chunk that failed or had no result in time. -/
def chunkLog (style : Style) (sizes : List Nat) (outcomes : List ChunkOutcome) :
    List Log.Record :=
  (sizes.zip outcomes).zipIdx.filterMap fun ((size, o), i) =>
    match o with
    | .ok _ => none
    | .error e =>
      let place := "chunk " ++ toString i ++ " (" ++ toString size ++ " calls) "
      some ⟨.warning, logger style, match e.problem with
        | .timeout seconds => place ++ "timed out after " ++ seconds.shown ++ "s"
        | p => place ++ "failed: " ++ p.message⟩

/-- The chunks of a list of calls. -/
def plan (calls : List Call) (batchSize : Value) : Except Fault (List (List SubCall)) :=
  Plan.chunksFor SubCall.cost batchSize (calls.map SubCall.ofCall)

/-- The chunks of a list of calls, with the record of the plan. -/
def planned (calls : List Call) (batchSize : Value) :
    Except Fault (List (List SubCall) × Log.Record) := do
  let chunks ← plan calls batchSize
  let record ← planLog chunks.length calls.length batchSize
  .ok (chunks, record)

/-- Is a run of tasks cancelled, when that happens as soon as so many requests hang? -/
def isCancelled (cancelAfter : Option Nat) (entries : List Schedule.Entry) : Bool :=
  match cancelAfter with
  | none => false
  | some n => n ≤ (entries.filter fun e => e.isSent && e.attempt.result.isNone).length

/-- Waits for the chunks in the style of the client. -/
def await (style : Style) (deadline : Schedule.Deadline) (cancelAfter : Option Nat)
    (entries : List Schedule.Entry) : Schedule.Ending :=
  match style with
  | .pool => Schedule.awaitPool deadline entries
  | .tasks => Schedule.awaitTasks deadline (isCancelled cancelAfter entries) entries

/-- Runs chunks and puts their results in the order of the calls. -/
def runChunks [Platform] (c : Client) (node : Node) (calls : List Call)
    (chunks : List (List SubCall)) (address : Option Value) (deployless : Bool)
    (o : CallOptions) (limit : Option Nat) (deadline : Schedule.Deadline)
    (cancelAfter : Option Nat) (log : List Log.Record) : Run :=
  let sizes := chunks.map List.length
  let attempts := chunks.zipIdx.map fun (chunk, i) =>
    (chunk.length, c.attempt (node.react i) i (chunk.map SubCall.toValue) address deployless
      o.block)
  let entries := Schedule.Entry.ofAttempts (deadline.decided c.style node.clock) limit attempts
  let requests := Schedule.requests entries
  match await c.style deadline cancelAfter entries with
  | .settled outcomes =>
    let log := log ++ chunkLog c.style sizes outcomes
    match reassemble calls sizes outcomes o.allowFailure.truthy with
    | .ok rs => ⟨.returned rs, requests, log⟩
    | .error e => ⟨.raised e, requests, log⟩
  | .escaped f => ⟨.raised (.fault f), requests, log⟩
  | .cancelled => ⟨.raised .cancelled, requests, log⟩
  | .pending => ⟨.pending, requests, log⟩

/-- Runs a list of calls. A run of tasks is cancelled as soon as `cancelAfter` requests
hang. -/
def call [Platform] (c : Client) (node : Node) (items : List CallItem) (options : CallOptions)
    (cancelAfter : Option Nat) : Run :=
  let o := options.within c.settings
  match c.destination o.address o.deployless.truthy o.block with
  | .error e => .early (.raised e) []
  | .ok address =>
    match prepare items with
    | .error e => .early (.raised e) []
    | .ok calls =>
      match encodingLog calls with
      | .error f => .early (.raised (.fault f)) []
      | .ok log =>
        if calls.isEmpty then .early (.returned []) []
        else match planned calls o.batchSize with
          | .error f => .early (.raised (.fault f)) log
          | .ok (chunks, record) =>
            let log := log ++ [record]
            match Schedule.limitOfValue c.style o.maxConcurrentChunks,
                Schedule.Deadline.ofValue c.style o.timeout with
            | .ok limit, .ok deadline =>
              c.runChunks node calls chunks address (o.deployless.truthy || address.isNone) o limit
                deadline cancelAfter log
            | .error f, _ => .early (.raised (.fault f)) log
            | _, .error f => .early (.raised (.fault f)) log

/-- The options of a single chunk: the destination, which must be given, and the rest. -/
structure ChunkOptions where
  address : Option Value := none
  deployless : Value := .bool false
  block : Value := .text "latest"
  index : Value := .int 0

namespace ChunkOptions

/-- Sets the option of a name. -/
def set (o : ChunkOptions) (name : String) (v : Value) : Except Fault ChunkOptions :=
  match name with
  | "multicall_address" => .ok { o with address := some v }
  | "deployless" => .ok { o with deployless := v }
  | "block_identifier" => .ok { o with block := v }
  | "index" => .ok { o with index := v }
  | _ => .error .wrongKind

/-- Options by name. -/
def ofFields (fs : Fields) : Except Fault ChunkOptions :=
  fs.foldlM (fun o f => o.set f.1 f.2) {}

end ChunkOptions

/-- Sends one chunk as it is. -/
def sendChunk [Platform] (c : Client) (node : Node) (chunk : List Value) (o : ChunkOptions) :
    Except Fault Attempt :=
  match o.address with
  | none => .error .wrongKind
  | some address =>
    let index := o.index.number?.getD 0
    .ok (c.attempt (node.react index.toNat) index chunk address.given? o.deployless.truthy
      o.block)

end Client

end EthBatch
