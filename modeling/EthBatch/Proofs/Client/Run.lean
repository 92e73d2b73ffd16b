import EthBatch.Proofs.Client.Fate
import EthBatch.Proofs.Plan

/-!
# From a list of calls to its outcome

A run that is not refused at the start has a destination, a plan, a limit and a deadline;
`Client.Started` collects them. Its outcome is then decided by the entries of its chunks, which
say of each chunk what the node does with the request and whether it is sent.
-/

namespace EthBatch

/-- Does the node leave the request without an answer? -/
def Reaction.isHang : Reaction → Bool
  | .hang => true
  | _ => false

theorem Reaction.isHang_iff {x : Reaction} : x.isHang = true ↔ x = .hang := by
  cases x <;> simp [isHang]

theorem Client.prepare_map (calls : List Call) : prepare (calls.map .call) = .ok calls := by
  induction calls with
  | nil => rfl
  | cons c calls ih => simp [prepare, ih]

theorem Client.prepare_eq_ok {items : List CallItem} {calls : List Call}
    (h : prepare items = .ok calls) : items = calls.map .call := by
  induction items generalizing calls with
  | nil =>
      cases h
      rfl
  | cons item items ih =>
      cases item with
      | other kind => cases h
      | call c =>
          obtain ⟨rest, hrest, h⟩ := Except.bind_eq_ok.mp h
          obtain rfl := Except.ok.inj h
          rw [ih hrest, List.map_cons]

theorem Client.prepare_eq_error {items : List CallItem} {e : Error}
    (h : prepare items = .error e) : ∃ kind, e = .notACall kind := by
  induction items with
  | nil => cases h
  | cons item items ih =>
      cases item with
      | other kind =>
          cases h
          exact ⟨kind, rfl⟩
      | call c =>
          rcases Except.bind_eq_error.mp h with h | ⟨rest, _, h⟩
          · exact ih h
          · cases h

/-- An error about what a run was given or about its client, from before any request. -/
def Error.IsRefusal : Error → Prop
  | .fault f => f ≠ .badIndex
  | .chainNotConfigured => True
  | .chainUnsupported _ _ _ => True
  | .notACall _ => True
  | _ => False

theorem Error.isRefusal_fault {α : Type} {x : Except Fault α} {f : Fault} (range : InRange x)
    (h : x = .error f) : (Error.fault f).IsRefusal := by
  subst h
  exact InRange.error_iff.mp range

/-- The error that takes the place of one that cannot be worded is a refusal, too. -/
theorem Error.IsRefusal.worded {e : Error} (h : e.IsRefusal) : e.worded.IsRefusal := by
  unfold Error.worded
  split
  · exact h
  · nofun

theorem Error.IsRefusal.isInternal {e : Error} (h : e.IsRefusal) : e.isInternal = false := by
  cases e with
  | fault f => cases f <;> simp_all [IsRefusal, Error.isInternal]
  | resultsMismatch => exact h.elim
  | _ => rfl

theorem Error.IsRefusal.ne_failure {e : Error} (h : e.IsRefusal) (f : Failure) :
    e ≠ .failure f := by
  rintro rfl
  exact h

namespace Client

section Entries

variable (c : Client) (node : Node) (r : Route) (limit : Option Nat)
variable (chunks : List (List SubCall))

/-- How many of the first chunks have a request that hangs. -/
def hanging (k : Nat) : Nat :=
  (chunks.zipIdx.take k).countP fun p => (c.reaction node r p.2 p.1).isHang

/-- Is the request of a chunk sent? -/
def isSent (deadline : Schedule.Deadline) (k : Nat) : Bool :=
  (deadline.decided c.style node.clock k).getD
    (Schedule.hasSlot limit (c.hanging node r chunks k))

theorem isSent_of_isOver {deadline : Schedule.Deadline} (late : deadline.isOver = true) (k : Nat) :
    c.isSent node r limit chunks deadline k = false := by
  cases deadline with
  | passed seconds => rfl
  | _ => cases late

variable (deadline : Schedule.Deadline)

/-- The entries of chunks of calls. -/
def entriesFor : List Schedule.Entry :=
  Schedule.Entry.ofAttempts (deadline.decided c.style node.clock) limit (chunks.zipIdx.map fun p =>
    (p.1.length, ⟨some (c.requestFor r p.1),
      settleReaction p.2 p.1.length (c.reaction node r p.2 p.1)⟩))

@[simp] theorem length_entriesFor :
    (c.entriesFor node r limit chunks deadline).length = chunks.length := by
  simp [entriesFor]

variable {chunks}

theorem getElem?_entriesFor {k : Nat} {chunk : List SubCall} (h : chunks[k]? = some chunk) :
    (c.entriesFor node r limit chunks deadline)[k]? = some ⟨chunk.length,
      ⟨some (c.requestFor r chunk),
        settleReaction k chunk.length (c.reaction node r k chunk)⟩,
      c.isSent node r limit chunks deadline k⟩ := by
  have here : (chunks.zipIdx.map fun p => (p.1.length, (⟨some (c.requestFor r p.1),
      settleReaction p.2 p.1.length (c.reaction node r p.2 p.1)⟩ : Attempt)))[k]? =
      some (chunk.length, ⟨some (c.requestFor r chunk),
        settleReaction k chunk.length (c.reaction node r k chunk)⟩) := by
    simp [List.getElem?_map, List.getElem?_zipIdx, h]
  rw [entriesFor, Schedule.Entry.getElem?_ofAttempts _ limit here, ← List.map_take,
    List.countP_map]
  have same : (chunks.zipIdx.take k).countP ((fun a : Nat × Attempt => a.2.result.isNone) ∘
      fun p => (p.1.length, ⟨some (c.requestFor r p.1),
        settleReaction p.2 p.1.length (c.reaction node r p.2 p.1)⟩)) =
      c.hanging node r chunks k :=
    List.countP_congr fun p _ => by simp [settleReaction_eq_none, Reaction.isHang_iff]
  rw [same]
  rfl

theorem getElem?_tasks_entriesFor {k : Nat} {chunk : List SubCall} (h : chunks[k]? = some chunk) :
    (Schedule.tasks deadline (c.entriesFor node r limit chunks deadline))[k]? =
      some (Schedule.task deadline k ⟨chunk.length,
        ⟨some (c.requestFor r chunk),
          settleReaction k chunk.length (c.reaction node r k chunk)⟩,
        c.isSent node r limit chunks deadline k⟩) :=
  Schedule.getElem?_tasks (c.getElem?_entriesFor node r limit deadline h)

/-- A fault that ends the waiting is that of a chunk whose request was sent. -/
theorem fault_of_await {style : Style} {deadline : Schedule.Deadline} {cancelAfter : Option Nat}
    {f : Fault}
    (h : await style deadline cancelAfter (c.entriesFor node r limit chunks deadline) =
      .escaped f) :
    ∃ k chunk, chunks[k]? = some chunk ∧ c.isSent node r limit chunks deadline k = true ∧
      settleReaction k chunk.length (c.reaction node r k chunk) = some (.error f) := by
  obtain ⟨k, hk⟩ := List.getElem?_of_mem (Schedule.mem_of_await_escaped h)
  have inside : k < chunks.length := by
    have := (List.getElem?_eq_some_iff.mp hk).1
    simpa [Schedule.tasks] using this
  have hchunk : chunks[k]? = some chunks[k] := List.getElem?_eq_getElem inside
  rw [getElem?_tasks_entriesFor c node r limit deadline hchunk] at hk
  obtain ⟨sent, fault⟩ := fault_of_task (isSent_of_isOver c node r limit chunks · k)
    (Option.some.inj hk)
  exact ⟨k, chunks[k], hchunk, sent, fault⟩

/-- The requests are those of the chunks that are sent. -/
theorem requests_entriesFor (chunks : List (List SubCall)) :
    Schedule.requests (c.entriesFor node r limit chunks deadline) =
      chunks.zipIdx.filterMap fun p =>
        if c.isSent node r limit chunks deadline p.2 then some (p.2, c.requestFor r p.1)
        else none := by
  have entries : (c.entriesFor node r limit chunks deadline).zipIdx = chunks.zipIdx.map fun p =>
      ((⟨p.1.length, ⟨some (c.requestFor r p.1),
        settleReaction p.2 p.1.length (c.reaction node r p.2 p.1)⟩,
        c.isSent node r limit chunks deadline p.2⟩ : Schedule.Entry), p.2) := by
    apply List.ext_getElem?
    intro k
    rw [List.getElem?_zipIdx, List.getElem?_map, List.getElem?_zipIdx]
    cases hchunk : chunks[k]? with
    | none =>
        have outside : (c.entriesFor node r limit chunks deadline)[k]? = none := by
          rw [List.getElem?_eq_none_iff] at hchunk ⊢
          simpa using hchunk
        simp [outside]
    | some chunk => simp [c.getElem?_entriesFor node r limit deadline hchunk]
  rw [Schedule.requests, entries, List.filterMap_map]
  rfl

theorem mem_requests_entriesFor {k : Nat} {q : Request} :
    (k, q) ∈ Schedule.requests (c.entriesFor node r limit chunks deadline) ↔
      ∃ chunk, chunks[k]? = some chunk ∧ c.isSent node r limit chunks deadline k = true ∧
        q = c.requestFor r chunk := by
  rw [requests_entriesFor, List.mem_filterMap]
  constructor
  · rintro ⟨⟨chunk, i⟩, inside, sent⟩
    split at sent
    · next flag =>
      cases sent
      exact ⟨chunk, List.mem_zipIdx_iff_getElem?.mp inside, flag, rfl⟩
    · cases sent
  · rintro ⟨chunk, here, flag, rfl⟩
    exact ⟨(chunk, k), List.mem_zipIdx_iff_getElem?.mpr here, if_pos flag⟩

end Entries

/-! ## The start of a run -/

/-- What a run of calls is started with. -/
structure Started (c : Client) (o : CallOptions) (calls : List Call)
    (chunks : List (List SubCall)) (r : Route) (limit : Option Nat)
    (deadline : Schedule.Deadline) : Prop where
  destination : c.destination o.address o.deployless.truthy o.block = .ok r.address
  deployless : r.deployless = (o.deployless.truthy || r.address.isNone)
  block : r.block = o.block
  some : calls ≠ []
  plan : Client.plan calls o.batchSize = .ok chunks
  reportable : calls.all isReportable = true
  written : o.batchSize.isWritable = true
  limit : Schedule.limitOfValue c.style o.maxConcurrentChunks = .ok limit
  deadline : Schedule.Deadline.ofValue c.style o.timeout = .ok deadline

/-- How a run ends, given how the waiting for its chunks ends. -/
def conclude (calls : List Call) (sizes : List Nat) (allowFailure : Bool) :
    Schedule.Ending → RunOutcome
  | .settled outcomes =>
    match reassemble calls sizes outcomes allowFailure with
    | .ok rs => .returned rs
    | .error e => .raised e
  | .escaped f => .raised (.fault f)
  | .cancelled => .raised .cancelled
  | .pending => .pending

variable {c : Client} {node : Node} {items : List CallItem} {options : CallOptions}
variable {cancelAfter : Option Nat} {calls : List Call} {chunks : List (List SubCall)}
variable {r : Route} {limit : Option Nat} {deadline : Schedule.Deadline}

/-- Every chunk is attempted with its own request. -/
theorem ofAttempts_eq_entriesFor [Platform] : Schedule.Entry.ofAttempts
      (deadline.decided c.style node.clock) limit (chunks.zipIdx.map fun (chunk, i) =>
        (chunk.length, c.attempt (node.react i) i (chunk.map SubCall.toValue) r.address
          r.deployless r.block)) =
    c.entriesFor node r limit chunks deadline := by
  apply congrArg (Schedule.Entry.ofAttempts _ limit)
  apply List.map_congr_left
  intro p _
  exact congrArg (Prod.mk p.1.length) (attempt_toValue c r p.1 node p.2)

theorem outcome_runChunks [Platform] {address : Option Value} {deployless : Bool} {o : CallOptions}
    {log : List Log.Record} :
    (c.runChunks node calls chunks address deployless o limit deadline cancelAfter log).outcome =
    conclude calls (chunks.map List.length) o.allowFailure.truthy
      (await c.style deadline cancelAfter
        (c.entriesFor node ⟨address, deployless, o.block⟩ limit chunks deadline)) := by
  rw [← ofAttempts_eq_entriesFor]
  unfold runChunks
  dsimp only
  split
  · next os settled =>
    rw [settled, conclude]
    cases reassemble calls (chunks.map List.length) os o.allowFailure.truthy <;> rfl
  · next f escaped => rw [escaped, conclude]
  · next cancelled => rw [cancelled, conclude]
  · next pending => rw [pending, conclude]

/-- The requests of the chunks that are sent reach the node. -/
theorem requests_runChunks [Platform] {address : Option Value} {deployless : Bool} {o : CallOptions}
    {log : List Log.Record} :
    (c.runChunks node calls chunks address deployless o limit deadline cancelAfter log).requests =
    Schedule.requests
      (c.entriesFor node ⟨address, deployless, o.block⟩ limit chunks deadline) := by
  rw [← ofAttempts_eq_entriesFor]
  unfold runChunks
  dsimp only
  split
  · split <;> rfl
  all_goals rfl

/-- A plan is made of the chunks, unless its budget cannot be written. -/
theorem planned_eq_ok {budget : Value} {p : List (List SubCall) × Log.Record} :
    planned calls budget = .ok p ↔ plan calls budget = .ok p.1 ∧ budget.isWritable = true ∧
      planLog p.1.length calls.length budget = .ok p.2 := by
  obtain ⟨chunks, record⟩ := p
  simp only [planned, Except.bind_eq_ok, Except.ok.injEq, Prod.mk.injEq]
  constructor
  · rintro ⟨_, plan, _, log, rfl, rfl⟩
    refine ⟨plan, ?_, log⟩
    by_contra unwritable
    simp [planLog, unwritable] at log
  · rintro ⟨plan, _, log⟩
    exact ⟨_, plan, _, log, rfl, rfl⟩

theorem Started.planned {o : CallOptions} (h : c.Started o calls chunks r limit deadline) :
    ∃ record, Client.planned calls o.batchSize = .ok (chunks, record) := by
  obtain ⟨record, made⟩ : ∃ record, planLog chunks.length calls.length o.batchSize = .ok record :=
    ⟨_, if_pos h.written⟩
  exact ⟨record, planned_eq_ok.mpr ⟨h.plan, h.written, made⟩⟩

/-- A run that has started is a run of its chunks. -/
theorem Started.call_eq [Platform]
    (h : c.Started (options.within c.settings) calls chunks r limit deadline) (node : Node)
    (cancelAfter : Option Nat) :
    ∃ log, c.call node (calls.map .call) options cancelAfter =
      c.runChunks node calls chunks r.address r.deployless (options.within c.settings) limit
        deadline cancelAfter log := by
  have nonempty : calls.isEmpty = false := by simpa using h.some
  obtain ⟨reports, logged⟩ : ∃ reports, encodingLog calls = .ok reports :=
    ⟨_, if_pos h.reportable⟩
  obtain ⟨record, planned⟩ := h.planned
  refine ⟨reports ++ [record], ?_⟩
  simp only [call, h.destination, prepare_map, logged, nonempty, Bool.false_eq_true, if_false,
    planned, h.limit, h.deadline, h.deployless]

/-- A run that has started ends as its chunks end. -/
theorem Started.outcome_call [Platform]
    (h : c.Started (options.within c.settings) calls chunks r limit deadline) :
    (c.call node (calls.map .call) options cancelAfter).outcome =
      conclude calls (chunks.map List.length) options.allowFailure.truthy
        (await c.style deadline cancelAfter (c.entriesFor node r limit chunks deadline)) := by
  obtain ⟨log, run⟩ := h.call_eq node cancelAfter
  rw [run, outcome_runChunks, ← h.block]
  rfl

theorem Started.requests_call [Platform]
    (h : c.Started (options.within c.settings) calls chunks r limit deadline) :
    (c.call node (calls.map .call) options cancelAfter).requests =
      Schedule.requests (c.entriesFor node r limit chunks deadline) := by
  obtain ⟨log, run⟩ := h.call_eq node cancelAfter
  rw [run, requests_runChunks, ← h.block]

theorem isRefusal_of_mapError {α : Type} {x : Except Fault α} {e : Error} (range : InRange x)
    (h : x.mapError Error.fault = .error e) : e.IsRefusal := by
  cases x with
  | ok a => cases h
  | error f =>
      cases h
      exact Error.isRefusal_fault range rfl

theorem inRange_chosenAddress (given : Value) (own : Option Address) :
    InRange (chosenAddress given own) := by
  unfold chosenAddress
  split
  · exact (Address.inRange_ofValue _).map
  · simp

theorem isRefusal_of_registered {block : Value} {e : Error} (h : c.registered block = .error e) :
    e.IsRefusal := by
  have unsupported {block : Value} :
      (Error.worded (.chainUnsupported c.chain (.text "multicall3") block)).IsRefusal :=
    Error.IsRefusal.worded trivial
  unfold registered at h
  split at h
  · cases h
    trivial
  · rcases Except.bind_eq_error.mp h with h | ⟨found, _, h⟩
    · exact isRefusal_of_mapError (c.registry.inRange_get _) h
    · split at h
      · cases h
        exact unsupported
      · rcases Except.bind_eq_error.mp h with h | ⟨height, _, h⟩
        · exact isRefusal_of_mapError (Block.inRange_height _) h
        · split at h
          · cases h
          · rcases Except.bind_eq_error.mp h with h | ⟨after, _, h⟩
            · exact isRefusal_of_mapError (Deployment.inRange_isCreatedAfter _ _) h
            · split at h
              · cases h
                exact unsupported
              · cases h

theorem isRefusal_of_destination {address block : Value} {deployless : Bool} {e : Error}
    (h : c.destination address deployless block = .error e) : e.IsRefusal := by
  rcases Except.bind_eq_error.mp h with h | ⟨chosen, _, h⟩
  · exact isRefusal_of_mapError (inRange_chosenAddress _ _) h
  · split at h
    · cases h
    · split at h
      · cases h
      · exact isRefusal_of_registered (Except.map_eq_error.mp h)

theorem isReportable_of_encodingLog {log : List Log.Record} (h : encodingLog calls = .ok log) :
    calls.all isReportable = true := by
  by_contra unreportable
  simp [encodingLog, unreportable] at h

theorem inRange_encodingLog (calls : List Call) : InRange (encodingLog calls) := by
  unfold encodingLog
  split <;> simp

theorem inRange_planned (calls : List Call) (budget : Value) : InRange (planned calls budget) := by
  unfold planned planLog
  refine (Plan.inRange_chunksFor _ _ _).bind fun chunks => ?_
  split <;> simp

/-- A run starts, or it is over before any request. -/
theorem call_cases [Platform] (c : Client) (node : Node) (items : List CallItem)
    (options : CallOptions) (cancelAfter : Option Nat) :
    (∃ calls chunks r limit deadline, items = calls.map .call ∧
      c.Started (options.within c.settings) calls chunks r limit deadline) ∨
    ∃ outcome log, c.call node items options cancelAfter = .early outcome log ∧
      ((items = [] ∧ outcome = .returned []) ∨
        ∃ e, outcome = .raised e ∧ e.IsRefusal) := by
  unfold call
  dsimp only
  split
  · next e refused => exact .inr ⟨_, _, rfl, .inr ⟨e, rfl, isRefusal_of_destination refused⟩⟩
  · next address destination =>
    split
    · next e refused =>
      obtain ⟨kind, rfl⟩ := prepare_eq_error refused
      exact .inr ⟨_, _, rfl, .inr ⟨_, rfl, trivial⟩⟩
    · next calls prepared =>
      have items := prepare_eq_ok prepared
      split
      · next f refused =>
        exact .inr ⟨_, _, rfl, .inr ⟨_, rfl,
          Error.isRefusal_fault (inRange_encodingLog calls) refused⟩⟩
      · next reports logged =>
        split
        · next nothing =>
          rw [List.isEmpty_iff] at nothing
          exact .inr ⟨_, _, rfl, .inl ⟨by rw [items, nothing, List.map_nil], rfl⟩⟩
        · next some =>
          rw [List.isEmpty_iff] at some
          split
          · next f refused =>
            exact .inr ⟨_, _, rfl, .inr ⟨_, rfl,
              Error.isRefusal_fault (inRange_planned _ _) refused⟩⟩
          · next chunks record made =>
            obtain ⟨planned, written, -⟩ := planned_eq_ok.mp made
            split
            · next limit deadline limited dated =>
              refine .inl ⟨calls, chunks, ⟨address,
                (options.within c.settings).deployless.truthy || address.isNone,
                (options.within c.settings).block⟩, limit, deadline, items, ?_⟩
              exact ⟨destination, rfl, rfl, some, planned, isReportable_of_encodingLog logged,
                written, limited, dated⟩
            · next f limited =>
              exact .inr ⟨_, _, rfl, .inr ⟨_, rfl,
                Error.isRefusal_fault (Schedule.inRange_limitOfValue _ _) limited⟩⟩
            · next f dated _ =>
              exact .inr ⟨_, _, rfl, .inr ⟨_, rfl,
                Error.isRefusal_fault (Schedule.Deadline.inRange_ofValue _ _) dated⟩⟩

/-- A run starts, or it has nothing to do, or it is refused at once. -/
theorem started_or_early [Platform] (c : Client) (node : Node) (items : List CallItem)
    (options : CallOptions) (cancelAfter : Option Nat) :
    (∃ calls chunks r limit deadline, items = calls.map .call ∧
      c.Started (options.within c.settings) calls chunks r limit deadline) ∨
    (items = [] ∧ (c.call node items options cancelAfter).outcome = .returned []) ∨
    ∃ e, (c.call node items options cancelAfter).outcome = .raised e ∧ e.isInternal = false := by
  rcases call_cases c node items options cancelAfter with
    started | ⟨outcome, log, early, ⟨nothing, rfl⟩ | ⟨e, rfl, refusal⟩⟩
  · exact .inl started
  · exact .inr (.inl ⟨nothing, congrArg Run.outcome early⟩)
  · exact .inr (.inr ⟨e, congrArg Run.outcome early, refusal.isInternal⟩)

/-- The chunks of a run that has started are made of its calls. -/
theorem Started.flatten {o : CallOptions} (h : c.Started o calls chunks r limit deadline) :
    chunks.flatten = calls.map SubCall.ofCall :=
  Plan.flatten_chunksFor h.plan

theorem Started.length_pos {o : CallOptions} (h : c.Started o calls chunks r limit deadline)
    {chunk : List SubCall} (mem : chunk ∈ chunks) : 0 < chunk.length :=
  List.length_pos_iff.mpr (Plan.ne_nil_of_mem_chunksFor h.plan mem)

theorem Started.total {o : CallOptions} (h : c.Started o calls chunks r limit deadline) :
    (chunks.map List.length).sum = calls.length := by
  rw [← List.length_flatten, h.flatten, List.length_map]

end Client

end EthBatch
