import EthBatch.Proofs.Client.Destination
import EthBatch.Proofs.Client.Escape

/-!
# A pool and tasks come to the same

Two clients made from one configuration, one with a pool and one with tasks, know the same and
show the same: each list of calls ends alike, and the same requests reach the node. Faults of the
node and requests that hang make no difference, with a deadline or without one. Three things do. A
limit that is not whole gives other slots to a pool than to tasks. When output that cannot be read
spoils a chunk, each style meets it at a time of its own. And each style has a clock of its own,
which may be late: if the deadline is over when tasks begin to wait, they send nothing, while a
pool sends what it has slots for.
-/

namespace EthBatch

namespace Schedule

variable {deadline : Deadline} {entries : List Entry}

theorem awaitTasks_eq (deadline : Deadline) (entries : List Entry) :
    Client.await .tasks deadline none entries = gather (tasks deadline entries) := by
  simp only [Client.await, awaitTasks, Client.isCancelled, Bool.false_eq_true, if_false]
  rfl

/-- If no chunk has a fault, it makes no difference who waits for them. -/
theorem await_style (clean : ∀ f, some (.error f) ∉ tasks deadline entries) (style : Style) :
    Client.await style deadline none entries = Client.await .pool deadline none entries := by
  cases style with
  | pool => rfl
  | tasks =>
      rw [awaitTasks_eq]
      cases ending : gather (tasks deadline entries) with
      | settled os =>
          exact (awaitPool_eq_settled.mpr (gather_eq_settled.mp ending)).symm
      | escaped f => exact absurd (mem_of_gather_escaped ending) (clean f)
      | cancelled => exact absurd ending (gather_ne_cancelled _)
      | pending =>
          -- A pool that waits for the same chunks does not end well either, and meets no fault.
          have unsettled (os : List ChunkOutcome) : tasks deadline entries ≠ settled os := by
            intro same
            have mem := none_mem_of_gather_pending ending
            simp [same, settled] at mem
          cases pool : awaitPool deadline entries with
          | settled os => exact absurd (awaitPool_eq_settled.mp pool) (unsettled os)
          | escaped f => exact absurd (mem_of_awaitPool_escaped pool) (clean f)
          | cancelled => exact absurd pool (awaitPool_ne_cancelled _ _)
          | pending => exact pool.symm

end Schedule

/-- Is every answer of a node a list of answers, or refused by a fault of the format? -/
def Node.IsReadable (node : Node) : Prop :=
  ∀ k r raw, node.react k r = .answer raw → (∃ answers, Aggregate.decode raw = .ok answers) ∨
    Aggregate.decode raw = .error .empty ∨
    ∃ f, f.isDeclared = true ∧ Aggregate.decode raw = .error (.undecodable f)

/-- A node that gives one list of answers, if any, is readable. -/
theorem Node.IsReadable.of_response {node : Node} {answers : List Answer}
    (fits : (Aggregate.response answers).length < Abi.maxSize)
    (only : ∀ k r raw, node.react k r = .answer raw → raw = Aggregate.response answers) :
    node.IsReadable := by
  intro k r raw answer
  have read := Aggregate.decode_response fits []
  rw [List.append_nil] at read
  rw [only k r raw answer]
  exact .inl ⟨answers, read⟩

/-- Is it always left to the slots of a call which of its requests are sent in time? -/
def Node.IsPrompt (node : Node) : Prop := ∀ style seconds k, node.clock style seconds k = none

/-- A time that both styles can wait for, and that is not over at the start. -/
def Schedule.Deadline.IsAccepted (v : Value) : Prop :=
  ∀ style, ∃ d, Deadline.ofValue style v = .ok d ∧ d.isOver = false

/-- What a deadline comes to does not depend on the style that accepts it. -/
theorem Schedule.Deadline.ofValue_unique {v : Value} {style style' : Style} {d d' : Deadline}
    (h : ofValue style v = .ok d) (h' : ofValue style' v = .ok d') : d = d' := by
  cases v with
  | null => exact Except.ok.inj (h.symm.trans h')
  | float x =>
      simp only [ofValue] at h h'
      split at h
      · cases h
      · split at h'
        · cases h'
        · exact Except.ok.inj (h.symm.trans h')
  | _ =>
      simp only [ofValue] at h h'
      split at h
      · cases h
      · next n number =>
        simp only [number] at h'
        split at h
        · cases h
        · split at h'
          · cases h'
          · exact Except.ok.inj (h.symm.trans h')

theorem Schedule.Deadline.undecided_of_isPrompt {node : Node} (prompt : node.IsPrompt)
    {d : Deadline} (onTime : d.isOver = false) (style : Style) :
    d.Undecided style node.clock := by
  intro k
  cases d with
  | never => rfl
  | passed seconds => cases onTime
  | ahead seconds => exact prompt style seconds k

/-- Is the limit of requests in flight a whole number, or left to the settings? -/
def CallOptions.HasWholeLimit (o : CallOptions) : Prop :=
  o.maxConcurrentChunks = .null ∨ ∃ n, o.maxConcurrentChunks = .int n

/-- What is a whole number or left to the settings comes to a whole number. -/
theorem Value.exists_orElse_int {v : Value} (h : v = .null ∨ ∃ n, v = .int n) (m : Int) :
    ∃ n, v.orElse (.int m) = .int n := by
  rcases h with rfl | ⟨n, rfl⟩
  · exact ⟨m, rfl⟩
  · exact ⟨n, rfl⟩

theorem CallOptions.HasWholeLimit.exists_int {o : CallOptions} (h : o.HasWholeLimit)
    (settings : Settings) : ∃ n, (o.within settings).maxConcurrentChunks = .int n :=
  Value.exists_orElse_int h settings.maxConcurrentChunks

theorem CallOptions.HasWholeLimit.limitOfValue {o : CallOptions} (h : o.HasWholeLimit)
    (settings : Settings) (style : Style) :
    Schedule.limitOfValue style (o.within settings).maxConcurrentChunks =
      Schedule.limitOfValue .pool (o.within settings).maxConcurrentChunks := by
  obtain ⟨n, hn⟩ := h.exists_int settings
  rw [hn, Schedule.limitOfValue_int, Schedule.limitOfValue_int]

namespace Client

variable {c : Client} {node : Node} {chunks : List (List SubCall)} {r : Route}
variable {limit : Option Nat} {deadline : Schedule.Deadline}

/-- A client of the other style that is the same otherwise. -/
def withStyle (c : Client) (style : Style) : Client := { c with style }

theorem entriesFor_withStyle (c : Client) {style style' : Style}
    (free : deadline.Undecided style node.clock) (free' : deadline.Undecided style' node.clock) :
    (c.withStyle style).entriesFor node r limit chunks deadline =
      (c.withStyle style').entriesFor node r limit chunks deadline := by
  have same : deadline.decided style node.clock = deadline.decided style' node.clock :=
    funext fun k => (free k).trans (free' k).symm
  exact congrArg (Schedule.Entry.ofAttempts · limit _) same

/-- No fault comes of a request to a readable node. -/
theorem settleReaction_ne_error (readable : node.IsReadable) (r : Route) (k : Nat)
    (chunk : List SubCall) (f : Fault) :
    settleReaction k chunk.length (c.reaction node r k chunk) ≠ some (.error f) := by
  intro escaped
  obtain ⟨raw, cause, answer, undecodable, undeclared, _⟩ := fault_of_settleReaction escaped
  rcases readable _ _ _ answer with ⟨answers, read⟩ | read | ⟨f, declared, read⟩
  · rw [undecodable] at read
    cases read
  · rw [undecodable] at read
    cases read
  · rw [undecodable] at read
    cases read
    rw [declared] at undeclared
    cases undeclared

/-- A node whose answers are readable gives no chunk a fault. -/
theorem clean_of_isReadable (readable : node.IsReadable) (f : Fault) :
    some (.error f) ∉ Schedule.tasks deadline (c.entriesFor node r limit chunks deadline) := by
  intro mem
  obtain ⟨k, chunk, _, fault⟩ := exists_of_mem_tasks mem
  obtain ⟨_, escaped⟩ := fault_of_task (isSent_of_isOver c node r limit chunks · k) fault.symm
  exact settleReaction_ne_error readable r k chunk f escaped

/-- What a run shows: how it ended, and the requests by chunk. -/
def seen (run : Run) : RunOutcome × List (Nat × Request) := (run.outcome, run.requests)

/-- A run shows the same in either style. -/
theorem seen_call_withStyle [Platform] (c : Client) (readable : node.IsReadable)
    (prompt : node.IsPrompt) {options : CallOptions} (whole : options.HasWholeLimit)
    (accepted : Schedule.Deadline.IsAccepted (options.within c.settings).timeout)
    (items : List CallItem) (style : Style) :
    seen ((c.withStyle style).call node items options none) =
      seen ((c.withStyle .pool).call node items options none) := by
  have destination : (c.withStyle style).destination = (c.withStyle .pool).destination := rfl
  have settings : (c.withStyle style).settings = (c.withStyle .pool).settings := rfl
  have limits : Schedule.limitOfValue (c.withStyle style).style
        (options.within (c.withStyle .pool).settings).maxConcurrentChunks =
      Schedule.limitOfValue (c.withStyle .pool).style
        (options.within (c.withStyle .pool).settings).maxConcurrentChunks :=
    whole.limitOfValue _ style
  obtain ⟨deadline, dated, onTime⟩ := accepted style
  have dated' : Schedule.Deadline.ofValue .pool (options.within c.settings).timeout =
      .ok deadline := by
    obtain ⟨deadline', dated', -⟩ := accepted .pool
    rw [dated', Schedule.Deadline.ofValue_unique dated' dated]
  have dates : Schedule.Deadline.ofValue (c.withStyle style).style
      (options.within (c.withStyle .pool).settings).timeout = .ok deadline := dated
  have dates' : Schedule.Deadline.ofValue (c.withStyle .pool).style
      (options.within (c.withStyle .pool).settings).timeout = .ok deadline := dated'
  have free := Schedule.Deadline.undecided_of_isPrompt prompt onTime
  unfold call
  simp only [destination, settings, limits, dates, dates']
  split
  · rfl
  · split
    · rfl
    · split
      · rfl
      · split
        · rfl
        · split
          · rfl
          · split
            · next dated =>
              cases dated
              rw [seen, seen, outcome_runChunks, outcome_runChunks, requests_runChunks,
                requests_runChunks, entriesFor_withStyle c (free style) (free .pool),
                Schedule.await_style (clean_of_isReadable readable)]
              rfl
            · rfl
            · rfl

/-- A client is made from a configuration and then runs lists of calls with their options. -/
def session [Platform] (style : Style) (config : Config) (node : Node)
    (uses : List (List CallItem × CallOptions)) : Except Error (Client × List Run) :=
  (make style config node).map fun c =>
    (c, uses.map fun use => c.call node use.1 use.2 none)

/-- What a session shows: the client apart from its style, and each of its runs. -/
def shown (session : Client × List Run) : Client × List (RunOutcome × List (Nat × Request)) :=
  (session.1.withStyle .pool, session.2.map seen)

theorem configure_withStyle (config : Config) (connected : config.connected = true)
    (style : Style) :
    configure style config = (configure .pool config).map (withStyle · style) := by
  unfold configure
  rw [connected]
  cases config.wrapper with
  | none =>
      simp only [Bool.not_true, Bool.false_eq_true, if_false, Except.map_bind]
      rfl
  | some wrapper =>
      simp only [Bool.not_true, Bool.false_eq_true, if_false, Except.map_bind]
      rfl

theorem make_withStyle (config : Config) (connected : config.connected = true) (node : Node)
    (style : Style) :
    make style config node = (make .pool config node).map (withStyle · style) := by
  rw [make, configure_withStyle config connected, make]
  cases configure .pool config with
  | error e => rfl
  | ok c =>
      have asks : (c.withStyle style).asksForChain = c.asksForChain := rfl
      simp only [Except.map, Except.ok_bind, asks]
      cases c.asksForChain with
      | false => rfl
      | true => cases node.chain <;> rfl

/-- Sessions of both styles show the same, if the node is readable, the limits are whole, the times
are accepted and the clock is prompt. A configuration without a connection makes no client of either
style. -/
theorem styles_agree [Platform] (config : Config) (node : Node)
    (uses : List (List CallItem × CallOptions)) (readable : node.IsReadable)
    (prompt : node.IsPrompt) (whole : ∀ use ∈ uses, use.2.HasWholeLimit)
    (accepted : ∀ use ∈ uses,
      Schedule.Deadline.IsAccepted (use.2.within config.settings).timeout) :
    (config.connected = true →
      (session .tasks config node uses).map shown = (session .pool config node uses).map shown) ∧
    (config.connected = false → ∀ style, session style config node uses =
      .error (.missingSource (constructorName style) "transport")) := by
  constructor
  · intro connected
    have runs {c : Client} (settings : c.settings = config.settings) :
        uses.map (fun use => seen ((c.withStyle .tasks).call node use.1 use.2 none)) =
          uses.map fun use => seen ((c.withStyle .pool).call node use.1 use.2 none) := by
      apply List.map_congr_left
      intro use mem
      exact seen_call_withStyle c readable prompt (whole use mem) (settings ▸ accepted use mem)
        use.1 .tasks
    rw [session, session, make_withStyle config connected node .tasks,
      make_withStyle config connected node .pool]
    cases made : make .pool config node with
    | error e => rfl
    | ok c =>
        have settings : (c.withStyle .pool).settings = config.settings :=
          (isMadeFrom_of_make made).settings
        simp only [Except.map, shown, List.map_map, Function.comp_def, runs settings]
        rfl
  · intro missing style
    simp only [session, make, configure, missing]
    rfl

/-- A configuration that leaves the chain to the node and the aggregator to the registry. -/
def asking : Config :=
  ⟨true, .null, .null, .null, ⟨1024, 4, false, none, none, none, none⟩, .empty, none⟩

/-- A node that refuses the first request, leaves the second without an answer, and answers the
others as it should. -/
def mixed : Node :=
  ⟨.ok (.int 1), fun k _ => if k = 0 then .fault "down" else if k = 1 then .hang
    else .answer (Aggregate.response [⟨true, [1]⟩]), fun _ _ _ => none⟩

theorem isReadable_mixed : mixed.IsReadable := by
  apply Node.IsReadable.of_response length_response_sound
  intro k r raw answer
  simp only [mixed] at answer
  split at answer
  · cases answer
  · split at answer
    · cases answer
    · exact (Reaction.answer.inj answer).symm

/-- Three chunks in two slots, with a deadline and without one. -/
def twice : List (List CallItem × CallOptions) :=
  [([sound, sound, sound].map .call,
    { batchSize := .int 2, maxConcurrentChunks := .int 2, timeout := .int 5 }),
  ([sound, sound, sound].map .call, { batchSize := .int 2, maxConcurrentChunks := .int 2 })]

open scoped Platform.Lenient

/-- The node is asked for the chain, and both clients are made and show the same. -/
theorem styles_agree_mixed : ∃ s, (session .pool asking mixed twice).map shown = .ok s ∧
    (session .tasks asking mixed twice).map shown = .ok s := by
  have whole : ∀ use ∈ twice, use.2.HasWholeLimit := by
    intro use mem
    rcases List.mem_cons.mp mem with rfl | mem
    · exact .inr ⟨2, rfl⟩
    · obtain rfl := List.mem_singleton.mp mem
      exact .inr ⟨2, rfl⟩
  have accepted : ∀ use ∈ twice,
      Schedule.Deadline.IsAccepted (use.2.within asking.settings).timeout := by
    intro use mem style
    rcases List.mem_cons.mp mem with rfl | mem
    · refine ⟨_, Schedule.Deadline.ofValue_int (n := 5) ?_, rfl⟩
      cases style <;> decide +kernel
    · obtain rfl := List.mem_singleton.mp mem
      exact ⟨_, rfl, rfl⟩
  have same := (styles_agree asking mixed twice isReadable_mixed (fun _ _ _ => rfl) whole
    accepted).1 rfl
  obtain ⟨c, made⟩ : ∃ c, make .pool asking mixed = .ok c := ⟨_, rfl⟩
  have pool : (session .pool asking mixed twice).map shown = .ok (shown
      (c, twice.map fun use => c.call mixed use.1 use.2 none)) := by
    rw [session, made]
    rfl
  exact ⟨_, pool, same.trans pool⟩

/-- A node that answers nothing, with a clock by which tasks always begin to wait too late. -/
def hurried : Node :=
  ⟨.ok .null, fun _ _ => .hang, fun
    | .tasks, _, _ => some false
    | .pool, _, _ => none⟩

/-- A pool sends a request that tasks do not send, if the deadline is over when they begin to
wait. -/
theorem exists_request_of_pool_only : ∃ q,
    ((plain .pool).call hurried [.call broken] { timeout := .int 5 } none).requests = [(0, q)] ∧
    ((plain .tasks).call hurried [.call broken] { timeout := .int 5 } none).requests = [] := by
  have started (style : Style) : (plain style).Started
      (({ timeout := .int 5 } : CallOptions).within (plain style).settings) [broken]
      [[.ofCall broken]] ⟨some (.text Address.zero.text), false, .text "latest"⟩ (some 4)
      (.ahead (.int 5)) := by
    refine ⟨rfl, rfl, rfl, nofun, rfl, rfl, ?_, ?_, Schedule.Deadline.ofValue_int (n := 5) ?_⟩
    · exact (by decide : Value.isWritable (.int 1024) = true)
    · exact Schedule.limitOfValue_int style 4
    · cases style <;> decide +kernel
  exact ⟨_, (started .pool).requests_call.trans rfl, (started .tasks).requests_call.trans rfl⟩

end Client

end EthBatch
