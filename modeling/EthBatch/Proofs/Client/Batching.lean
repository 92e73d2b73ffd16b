import EthBatch.Node.Script
import EthBatch.Proofs.Abi.Grammar
import EthBatch.Proofs.Client.Entries

/-!
# Batching cannot be seen

Against a node that answers each sub-call by its target and its calldata alone, the outcome of a
list of calls is the same however it is cut into chunks, however many requests are in flight, and
whether the requests go to an aggregator or carry its code. It is what settling the calls one by
one gives, so each entry is that of a run of its call alone. A run writes down its budget before it
sends anything, so a budget of too many digits is seen all the same.

Requests and answers must be shorter than `2 ^ 63` bytes, like every byte string there is.
-/

namespace EthBatch

open Abi

/-- The answers for a list of sub-calls. -/
def Node.answersTo (answer : Address → Bytes → Answer) (chunk : List SubCall) : List Answer :=
  chunk.map fun s => answer s.target s.data

/-- Does a node answer every request by the sub-calls it carries, each by its target and its
calldata? Deployless requests use the given wrapper. -/
def Node.Serves [Platform] (node : Node) (answer : Address → Bytes → Answer)
    (wrapper : Bytes) : Prop :=
  ∀ chunk r, node.react chunk r = Node.output (Node.answers answer wrapper r)

namespace Client

variable {answer : Address → Bytes → Answer} {c c' : Client} {node node' : Node}
variable {options options' : CallOptions} {calls : List Call} {chunks : List (List SubCall)}
variable {r : Route} {limit : Option Nat} {deadline : Schedule.Deadline}

/-- The node finds the calls of a chunk in its request and encodes the answers to them. -/
theorem reaction_of_serves [Platform] (serves : node.Serves answer c.wrapper) {k : Nat}
    {chunk : List SubCall} (fits : (c.requestFor r chunk).data.length < maxSize) :
    c.reaction node r k chunk =
      .answer (Aggregate.response (Node.answersTo answer chunk)) := by
  rw [reaction, serves, Node.answers, calls?_requestFor c r chunk fits, Node.output,
    Aggregate.encodeAnswers_eq]
  rfl

/-- Encoded answers settle the chunk that they are for. -/
theorem settleReaction_response {index size : Nat} {answers : List Answer}
    (count : answers.length = size) (fits : (Aggregate.response answers).length < maxSize) :
    settleReaction index size (.answer (Aggregate.response answers)) =
      some (.ok (.ok answers)) := by
  have read := Aggregate.decode_response fits []
  rw [List.append_nil] at read
  simp only [settleReaction, readOutput, read, count, if_true]
  rfl

/-- A limit leaves at least one slot. -/
theorem limit_ne_zero {style : Style} {v : Value}
    (h : Schedule.limitOfValue style v = .ok limit) : limit ≠ some 0 := by
  obtain ⟨above, habove, rfl⟩ := Except.map_eq_ok.mp h
  cases above with
  | false => simp
  | true =>
      rw [if_pos rfl]
      intro zero
      obtain ⟨p, hp, hslots⟩ := Option.bind_eq_some_iff.mp zero
      have positive : p.isAbove 0 = true := by
        unfold Value.isAbove at habove
        split at habove
        · cases habove
        · next p' hp' =>
          rw [hp] at hp'
          cases hp'
          exact Except.ok.inj habove
        · next none =>
          rw [hp] at none
          cases none
      cases p with
      | on n =>
          simp only [Number.Position.isAbove, decide_eq_true_eq] at positive
          simp only [Schedule.slots, Option.some.injEq] at hslots
          omega
      | after n => cases style <;> simp [Schedule.slots] at hslots
      | beyond negative => simp [Schedule.slots] at hslots
      | nowhere => simp [Schedule.slots] at hslots

/-- When the node serves all requests, every chunk comes to the answers for its calls. -/
theorem await_of_serves [Platform] {style : Style} (serves : node.Serves answer c.wrapper)
    (free : deadline.Undecided c.style node.clock) (slots : limit ≠ some 0)
    (requests : ∀ chunk ∈ chunks, (c.requestFor r chunk).data.length < maxSize)
    (responses : ∀ chunk ∈ chunks,
      (Aggregate.response (Node.answersTo answer chunk)).length < maxSize) :
    await style deadline none (c.entriesFor node r limit chunks deadline) =
      .settled (chunks.map fun chunk => .ok (Node.answersTo answer chunk)) := by
  have answered {k : Nat} {chunk : List SubCall} (h : chunk ∈ chunks) :
      c.reaction node r k chunk =
        .answer (Aggregate.response (Node.answersTo answer chunk)) :=
    reaction_of_serves serves (requests chunk h)
  have hanging (k : Nat) : c.hanging node r chunks k = 0 := by
    rw [hanging, List.countP_eq_zero]
    intro p hp
    rw [answered (List.fst_mem_of_mem_zipIdx (List.mem_of_mem_take hp))]
    nofun
  rw [Schedule.await_eq_settled]
  apply List.ext_getElem?
  intro k
  cases hchunk : chunks[k]? with
  | none =>
      rw [List.getElem?_eq_none_iff] at hchunk
      rw [List.getElem?_eq_none (by simpa [Schedule.tasks] using hchunk),
        List.getElem?_eq_none (by simpa [Schedule.settled] using hchunk)]
  | some chunk =>
      have mem := List.mem_of_getElem? hchunk
      have sent : c.isSent node r limit chunks deadline k = true := by
        rw [isSent, free, hanging, Schedule.hasSlot_zero slots, Option.getD_none]
      have settled : settleReaction k chunk.length (c.reaction node r k chunk) =
          some (.ok (.ok (Node.answersTo answer chunk))) := by
        rw [answered mem]
        exact settleReaction_response (by simp [Node.answersTo]) (responses chunk mem)
      rw [getElem?_tasks_entriesFor c node r limit deadline hchunk,
        task_of_isSent (isSent_of_isOver c node r limit chunks · k) sent settled]
      simp [Schedule.settled, hchunk]

/-- The verdicts of all chunks are the answers to all calls, wherever the cuts are. -/
theorem verdicts_answersTo (chunks : List (List SubCall)) :
    ((chunks.map List.length).zip (chunks.map fun chunk =>
      (.ok (Node.answersTo answer chunk) : ChunkOutcome))).flatMap
        (fun row => ChunkOutcome.verdicts row.1 row.2) =
      ((Node.answersTo answer chunks.flatten).map .ok : List Verdict) := by
  induction chunks with
  | nil => rfl
  | cons chunk chunks ih =>
      have split : Node.answersTo answer (chunk ++ chunks.flatten) =
          Node.answersTo answer chunk ++ Node.answersTo answer chunks.flatten :=
        List.map_append
      rw [List.map_cons, List.map_cons, List.zip_cons_cons, List.flatMap_cons, ih,
        List.flatten_cons, split, List.map_append]
      rfl

/-- The outcome of calls that are settled one by one with their answers, once those that could not
be encoded are reported. -/
def answered (answer : Address → Bytes → Answer) (calls : List Call) (allowFailure : Bool) :
    RunOutcome :=
  if calls.all isReportable then
    match Reassembly.settleEach allowFailure calls
        (calls.map fun call => .ok (answer call.target call.data)) with
    | .ok rs => .returned rs
    | .error e => .raised e
  else .raised (.fault .badValue)

/-- A run for which there is a destination, a budget that can be written, a limit and time, and
whose calls fit into one request. -/
structure Ready (c : Client) (node : Node) (options : CallOptions) (calls : List Call) : Prop where
  destination : ∃ address,
    c.destination options.address (options.within c.settings).deployless.truthy options.block =
      .ok address ∧
    (c.requestFor ⟨address, (options.within c.settings).deployless.truthy || address.isNone,
      options.block⟩ (calls.map .ofCall)).data.length < maxSize
  budget : ∃ b, Plan.Budget.ofValue (options.within c.settings).batchSize = .ok b
  written : (options.within c.settings).batchSize.isWritable = true
  limit : ∃ limit, Schedule.limitOfValue c.style
    (options.within c.settings).maxConcurrentChunks = .ok limit
  deadline : ∃ deadline, Schedule.Deadline.ofValue c.style (options.within c.settings).timeout =
    .ok deadline ∧ deadline.Undecided c.style node.clock

/-- Whole numbers are budgets and limits. -/
theorem Ready.of_int {batchSize maxConcurrentChunks : Int} {address : Option Value}
    (batch : options.batchSize = .int batchSize) (written : Number.isWritable batchSize = true)
    (most : options.maxConcurrentChunks = .int maxConcurrentChunks)
    (destination : c.destination options.address (options.within c.settings).deployless.truthy
      options.block = .ok address)
    (fits : (c.requestFor ⟨address, (options.within c.settings).deployless.truthy ||
      address.isNone, options.block⟩ (calls.map .ofCall)).data.length < maxSize)
    (free : ∃ deadline, Schedule.Deadline.ofValue c.style (options.within c.settings).timeout =
      .ok deadline ∧ deadline.Undecided c.style node.clock) :
    Ready c node options calls := by
  refine ⟨⟨address, destination, fits⟩, ?_, ?_, ?_, free⟩
  · simp only [CallOptions.within, batch]
    exact ⟨_, Plan.Budget.ofValue_int _⟩
  · simp only [CallOptions.within, batch]
    exact written
  · simp only [CallOptions.within, most]
    exact ⟨_, Schedule.limitOfValue_int _ _⟩

/-- A run that is ready for calls is ready for some of them. -/
theorem Ready.sublist {fewer : List Call} (ready : Ready c node options calls)
    (h : fewer.Sublist calls) : Ready c node options fewer := by
  obtain ⟨⟨address, destination, fits⟩, budget, written, limit, deadline⟩ := ready
  exact ⟨⟨address, destination, Nat.lt_of_le_of_lt (c.length_requestFor_le _ (h.map _)) fits⟩,
    budget, written, limit, deadline⟩

/-- There is a plan for calls and a budget. -/
theorem plan_eq_ok {budget : Value} {b : Plan.Budget} (some : calls ≠ [])
    (stated : Plan.Budget.ofValue budget = .ok b) :
    plan calls budget = .ok (Plan.chunks SubCall.cost b (calls.map .ofCall)) := by
  have nonempty : (calls.map SubCall.ofCall).isEmpty = false := by simpa using some
  simp only [plan, Plan.chunksFor, nonempty, Bool.false_eq_true, if_false, stated]
  rfl

theorem Ready.started (ready : Ready c node options calls) (some : calls ≠ [])
    (reportable : calls.all isReportable = true) :
    ∃ chunks r limit deadline,
      c.Started (options.within c.settings) calls chunks r limit deadline ∧
      deadline.Undecided c.style node.clock ∧
      (c.requestFor r (calls.map .ofCall)).data.length < maxSize := by
  obtain ⟨⟨address, destination, fits⟩, ⟨b, budget⟩, written, ⟨limit, limited⟩, deadline, dated,
    free⟩ := ready
  exact ⟨_, ⟨address, _, options.block⟩, limit, deadline,
    ⟨destination, rfl, rfl, some, plan_eq_ok some budget, reportable, written, limited, dated⟩,
    free, fits⟩

section

variable [Platform]

/-- A run for which there is a destination begins with the report of the calls that could not be
encoded, and with the plan. -/
theorem outcome_of_unreported (calls : List Call) {address : Option Value}
    (destination : c.destination (options.within c.settings).address
      (options.within c.settings).deployless.truthy (options.within c.settings).block = .ok address)
    (h : calls.all isReportable = false ∨ (calls ≠ [] ∧
      (∃ b, Plan.Budget.ofValue (options.within c.settings).batchSize = .ok b) ∧
      (options.within c.settings).batchSize.isWritable = false)) :
    (c.call node (calls.map .call) options none).outcome = .raised (.fault .badValue) := by
  simp only [call, destination, prepare_map, encodingLog]
  cases reportable : calls.all isReportable with
  | false => rfl
  | true =>
      obtain ⟨some, ⟨b, budget⟩, unwritten⟩ := h.resolve_left (by simp [reportable])
      have nonempty : calls.isEmpty = false := by simpa using some
      simp only [if_true, nonempty, Bool.false_eq_true, if_false, planned, plan_eq_ok some budget,
        Except.ok_bind, planLog, unwritten, Except.error_bind]
      rfl

/-- A run against a node that serves all requests settles the calls one by one. -/
theorem Ready.outcome (ready : Ready c node options calls) (serves : node.Serves answer c.wrapper)
    (fits : (Aggregate.response (Node.answersTo answer (calls.map .ofCall))).length < maxSize) :
    (c.call node (calls.map .call) options none).outcome =
      answered answer calls options.allowFailure.truthy := by
  cases reportable : calls.all isReportable with
  | false =>
      obtain ⟨⟨address, destination, _⟩, _⟩ := ready
      simp only [outcome_of_unreported calls destination (.inl reportable), answered, reportable,
        Bool.false_eq_true, if_false]
  | true =>
      by_cases some : calls = []
      · subst some
        obtain ⟨⟨address, destination, _⟩, _⟩ := ready
        have same : (options.within c.settings).block = options.block := rfl
        have own : (options.within c.settings).address = options.address := rfl
        simp only [call, same, own, destination]
        rfl
      · obtain ⟨chunks, r, limit, deadline, started, free, whole⟩ :=
          ready.started some reportable
        have part {chunk : List SubCall} (h : chunk ∈ chunks) :
            chunk.Sublist (calls.map .ofCall) := by
          rw [← started.flatten]
          exact List.sublist_flatten_of_mem h
        have settled : await c.style deadline none (c.entriesFor node r limit chunks deadline) =
            .settled (chunks.map fun chunk => .ok (Node.answersTo answer chunk)) := by
          apply await_of_serves serves free (limit_ne_zero started.limit)
          · intro chunk h
            exact Nat.lt_of_le_of_lt (c.length_requestFor_le r (part h)) whole
          · intro chunk h
            refine Nat.lt_of_le_of_lt (Aggregate.length_response_le ?_) fits
            exact (part h).map _
        rw [started.outcome_call, settled, conclude,
          (fates_of_await settled).reassemble started, verdicts_answersTo, started.flatten,
          Node.answersTo, List.map_map, List.map_map, answered, reportable]
        rfl

/-- Two runs of the same calls against nodes that serve the same answers have one outcome, and
each entry of it is what a run of its call alone returns. -/
theorem batching_invisible (ready : Ready c node options calls)
    (ready' : Ready c' node' options' calls)
    (serves : node.Serves answer c.wrapper) (serves' : node'.Serves answer c'.wrapper)
    (fits : (Aggregate.response (Node.answersTo answer (calls.map .ofCall))).length < maxSize)
    (same : options.allowFailure.truthy = options'.allowFailure.truthy) :
    (c.call node (calls.map .call) options none).outcome =
      (c'.call node' (calls.map .call) options' none).outcome ∧
    ∀ rs : List CallResult, (c.call node (calls.map .call) options none).outcome = .returned rs →
      rs.length = calls.length ∧ ∀ (i : Nat) (call : Call), calls[i]? = some call →
        ∃ result : CallResult, rs[i]? = some result ∧
        (c'.call node' [.call call] options' none).outcome = .returned [result] := by
  have whole := ready.outcome serves fits
  constructor
  · rw [whole, ready'.outcome serves' fits, same]
  · intro rs returned
    rw [whole, answered] at returned
    split at returned
    · next reportable =>
      split at returned
      · next rs' settled =>
        cases returned
        refine ⟨Reassembly.length_settleEach settled (by simp), ?_⟩
        intro i call hcall
        obtain ⟨result, hresult, one⟩ := Reassembly.getElem?_settleEach settled hcall
          (by rw [List.getElem?_map, hcall]; rfl)
        refine ⟨result, hresult, ?_⟩
        have mem := List.mem_of_getElem? hcall
        have alone : [call].Sublist calls := List.singleton_sublist.mpr mem
        have few : (Aggregate.response
            (Node.answersTo answer ([call].map .ofCall))).length < maxSize := by
          refine Nat.lt_of_le_of_lt (Aggregate.length_response_le ?_) fits
          exact (alone.map SubCall.ofCall).map _
        have reported : [call].all isReportable = true := by
          simpa using List.all_eq_true.mp reportable call mem
        have single := (ready'.sublist alone).outcome serves' few
        rw [List.map_singleton] at single
        rw [single, answered, reported, ← same, List.map_singleton, Reassembly.settleEach, one]
        rfl
      · cases returned
    · cases returned

end

open scoped Platform.Lenient

/-- A call that could be encoded. -/
def sound : Call :=
  { address := .null, fn := .text "f", args := [], kwargs := some [], target := .zero
    encoding := .ok ⟨[], [1, 2, 3, 4]⟩ }

/-- There is room for an answer to it. -/
theorem length_response_sound : (Aggregate.response [⟨true, [1]⟩]).length < maxSize := by
  rw [Aggregate.length_response]
  decide

/-- A node that gives the calldata of every sub-call back. -/
def echoing : Node :=
  ⟨.ok .null, fun _ r => Node.output (Node.answers (fun _ data => ⟨true, data⟩) [] r),
    fun _ _ _ => none⟩

theorem serves_echoing : echoing.Serves (fun _ data => ⟨true, data⟩) [] := fun _ _ => rfl

/-- Two requests to the aggregator, or one that carries its code. -/
theorem batching_invisible_echoing :
    ((plain .pool).call echoing ([broken, sound].map .call)
      { batchSize := .int 1, maxConcurrentChunks := .int 2 } none).outcome =
    ((plain .tasks).call echoing ([broken, sound].map .call)
      { batchSize := .int 0, maxConcurrentChunks := .int (-1), deployless := .bool true }
      none).outcome := by
  have direct : Ready (plain .pool) echoing { batchSize := .int 1, maxConcurrentChunks := .int 2 }
      [broken, sound] :=
    .of_int rfl (by decide) rfl rfl (by decide +kernel) ⟨_, rfl, fun _ => rfl⟩
  have carried : Ready (plain .tasks) echoing
      { batchSize := .int 0, maxConcurrentChunks := .int (-1), deployless := .bool true }
      [broken, sound] :=
    .of_int rfl (by decide) rfl rfl (by decide +kernel) ⟨_, rfl, fun _ => rfl⟩
  exact (batching_invisible direct carried serves_echoing serves_echoing
    (by rw [Aggregate.length_response]; decide) rfl).1

/-- The first number that has too many digits to be written. -/
def firstUnwritten : Nat := 10 ^ Number.maxDigits

theorem isWritable_firstUnwritten : Number.isWritable firstUnwritten = false := by
  rw [← Bool.not_eq_true, Number.isWritable_iff, Int.natAbs_natCast]
  exact Nat.lt_irrefl _

/-- The same call, sent with a budget of that size and with none. -/
theorem exists_budget_seen : ∃ (n : Int) (result : CallResult),
    ((plain .pool).call echoing [.call sound] { batchSize := .int n } none).outcome =
      .raised (.fault .badValue) ∧
    ((plain .pool).call echoing [.call sound] { batchSize := .int 0 } none).outcome =
      .returned [result] := by
  refine ⟨firstUnwritten, .ok (.tuple []), ?_, ?_⟩
  · have destination : (plain .pool).destination .null false (.text "latest") =
        .ok (some (.text Address.zero.text)) := rfl
    exact outcome_of_unreported [sound] destination
      (.inr ⟨List.cons_ne_nil _ _, ⟨_, Plan.Budget.ofValue_int _⟩, isWritable_firstUnwritten⟩)
  · have ready : Ready (plain .pool) echoing { batchSize := .int 0 } [sound] :=
      ⟨⟨_, rfl, by decide +kernel⟩, ⟨_, Plan.Budget.ofValue_int _⟩, by decide, ⟨_, rfl⟩,
        ⟨_, rfl, fun _ => rfl⟩⟩
    exact (ready.outcome serves_echoing (by rw [Aggregate.length_response]; decide)).trans rfl

end Client

end EthBatch
