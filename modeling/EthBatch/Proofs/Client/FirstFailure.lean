import EthBatch.Proofs.Client.Batching

/-!
# The first failure is raised

Whether failures are allowed makes no difference before the results are put together: the same
requests are sent and the same records are logged. If a run with failures allowed returns a list,
the run without returns the same list when no entry is a failure, and otherwise it raises the first
failure of the list, of whatever kind it is.
-/

namespace EthBatch

namespace Reassembly

variable {c : Call} {calls : List Call} {v : Verdict} {vs : List Verdict} {r : CallResult}
variable {rs : List CallResult}

/-- A result, unless it is a failure, which is raised. -/
def raiseFailure : CallResult → Except Error CallResult
  | .ok v => .ok (.ok v)
  | .error f => .error (.failure f)

/-- What would be the entry of a call is raised if it is a failure. -/
theorem settleOne_false (h : settleOne true c v = .ok r) :
    settleOne false c v = raiseFailure r := by
  cases v with
  | error e =>
      obtain rfl := Except.ok.inj h
      rfl
  | ok a =>
      simp only [settleOne, settle] at h ⊢
      cases settled : c.settle a with
      | error f =>
          rw [settled] at h
          cases h
      | ok result =>
          rw [settled] at h
          cases result with
          | error f =>
              obtain rfl := Except.ok.inj h
              rfl
          | ok value =>
              obtain rfl := Except.ok.inj h
              rfl

/-- Call by call, the first failure ends the settling. -/
theorem settleEach_false (h : settleEach true calls vs = .ok rs) :
    settleEach false calls vs = rs.mapM raiseFailure := by
  induction calls generalizing vs rs with
  | nil =>
      obtain rfl := Except.ok.inj h
      rfl
  | cons c calls ih =>
      cases vs with
      | nil =>
          obtain rfl := Except.ok.inj h
          rfl
      | cons v vs =>
          obtain ⟨r, first, h⟩ := Except.bind_eq_ok.mp h
          obtain ⟨rest, others, h⟩ := Except.bind_eq_ok.mp h
          obtain rfl := Except.ok.inj h
          rw [settleEach, settleOne_false first, ih others, List.mapM_cons]
          rfl

/-- There is no failure, or there is a first one. -/
theorem mapM_raiseFailure_cases (rs : List CallResult) :
    (rs.mapM raiseFailure = .ok rs ∧ ∀ r ∈ rs, ∃ value, r = .ok value) ∨
    ∃ (i : Nat) (f : Failure), rs.mapM raiseFailure = .error (.failure f) ∧
      rs[i]? = some (.error f) ∧ ∀ j < i, ∃ value, rs[j]? = some (.ok value) := by
  induction rs with
  | nil => exact .inl ⟨rfl, by simp⟩
  | cons r rs ih =>
      rw [List.mapM_cons]
      cases r with
      | error f => exact .inr ⟨0, f, rfl, rfl, fun j hj => absurd hj (Nat.not_lt_zero j)⟩
      | ok value =>
          rcases ih with ⟨same, values⟩ | ⟨i, f, raised, here, before⟩
          · refine .inl ⟨?_, ?_⟩
            · rw [same]
              rfl
            · intro r mem
              rcases List.mem_cons.mp mem with rfl | mem
              · exact ⟨value, rfl⟩
              · exact values r mem
          · refine .inr ⟨i + 1, f, ?_, by simpa using here, ?_⟩
            · rw [raised]
              rfl
            · intro j hj
              cases j with
              | zero => exact ⟨value, rfl⟩
              | succ j =>
                  obtain ⟨value, hvalue⟩ := before j (by omega)
                  exact ⟨value, by simpa using hvalue⟩

end Reassembly

/-- Options that allow failures, or do not. -/
def CallOptions.allowing (o : CallOptions) (allowFailure : Value) : CallOptions :=
  { o with allowFailure }

namespace Client

variable {c : Client} {node : Node} {options : CallOptions} {cancelAfter : Option Nat}
variable {calls : List Call} {chunks : List (List SubCall)} {r : Route} {limit : Option Nat}
variable {deadline : Schedule.Deadline} {rs : List CallResult}

/-- What a run shows before its results are put together. -/
def sentAndLogged (run : Run) : List (Nat × Request) × List Log.Record := (run.requests, run.log)

theorem sentAndLogged_runChunks [Platform] (allowFailure : Value) (address : Option Value)
    (deployless : Bool) (o : CallOptions) (log : List Log.Record) :
    sentAndLogged (c.runChunks node calls chunks address deployless (o.allowing allowFailure) limit
      deadline cancelAfter log) =
    sentAndLogged (c.runChunks node calls chunks address deployless o limit deadline cancelAfter
      log) := by
  simp only [runChunks, CallOptions.allowing]
  split
  · next os _ =>
    cases reassemble calls (chunks.map List.length) os allowFailure.truthy <;>
      cases reassemble calls (chunks.map List.length) os o.allowFailure.truthy <;> rfl
  · rfl
  · rfl
  · rfl

/-- Allowing failures changes nothing about the requests and the records. -/
theorem sentAndLogged_call [Platform] (c : Client) (node : Node) (items : List CallItem)
    (options : CallOptions) (cancelAfter : Option Nat) (allowFailure : Value) :
    sentAndLogged (c.call node items (options.allowing allowFailure) cancelAfter) =
      sentAndLogged (c.call node items options cancelAfter) := by
  have within : (options.allowing allowFailure).within c.settings =
      (options.within c.settings).allowing allowFailure := rfl
  unfold call
  rw [within]
  generalize options.within c.settings = o
  have destination : c.destination (o.allowing allowFailure).address
        (o.allowing allowFailure).deployless.truthy (o.allowing allowFailure).block =
      c.destination o.address o.deployless.truthy o.block := rfl
  simp only [destination]
  split
  · rfl
  · split
    · rfl
    · split
      · rfl
      · simp only [CallOptions.allowing]
        split
        · rfl
        · split
          · rfl
          · split
            · exact sentAndLogged_runChunks allowFailure _ _ o _
            · rfl
            · rfl

/-- A run that has started raises the first failure of the results that it would return. -/
theorem Started.outcome_allowing [Platform] {strict : Value}
    (started : c.Started (options.within c.settings) calls chunks r limit deadline)
    (allowed : options.allowFailure.truthy = true) (refused : strict.truthy = false)
    (returned : (c.call node (calls.map .call) options cancelAfter).outcome = .returned rs) :
    (c.call node (calls.map .call) (options.allowing strict) cancelAfter).outcome =
      match rs.mapM Reassembly.raiseFailure with
      | .ok rs => .returned rs
      | .error e => .raised e := by
  have strictly : c.Started ((options.allowing strict).within c.settings) calls chunks r limit
      deadline :=
    ⟨started.destination, started.deployless, started.block, started.some, started.plan,
      started.reportable, started.written, started.limit, started.deadline⟩
  have forbidden : (options.allowing strict).allowFailure.truthy = false := refused
  rw [started.outcome_call, allowed] at returned
  rw [strictly.outcome_call, forbidden]
  cases ending : await c.style deadline cancelAfter
      (c.entriesFor node r limit chunks deadline) with
  | settled os =>
      have fates := fates_of_await ending
      simp only [ending, conclude, fates.reassemble started] at returned ⊢
      split at returned
      · next settled =>
        cases returned
        cases raised : rs.mapM Reassembly.raiseFailure with
        | ok rs => rw [Reassembly.settleEach_false settled, raised]
        | error e => rw [Reassembly.settleEach_false settled, raised]
      · cases returned
  | _ =>
      simp only [ending, conclude] at returned
      cases returned

/-- Without calls there is nothing to fail. -/
theorem call_nil_allowing [Platform] (c : Client) (node : Node) (options : CallOptions)
    (cancelAfter : Option Nat) (allowFailure : Value) :
    c.call node [] (options.allowing allowFailure) cancelAfter =
      c.call node [] options cancelAfter := rfl

/-- If a run with failures allowed returns results, the run without sends the same requests. It
returns the same results if there is no failure among them, and raises the first one if there is. -/
theorem raises_first_failure [Platform] (c : Client) (node : Node) (items : List CallItem)
    (options : CallOptions) (cancelAfter : Option Nat) (strict : Value) (rs : List CallResult)
    (allowed : options.allowFailure.truthy = true) (refused : strict.truthy = false)
    (returned : (c.call node items options cancelAfter).outcome = .returned rs) :
    (c.call node items (options.allowing strict) cancelAfter).requests =
      (c.call node items options cancelAfter).requests ∧
    (c.call node items (options.allowing strict) cancelAfter).log =
      (c.call node items options cancelAfter).log ∧
    ((∀ r ∈ rs, ∃ value, r = .ok value) ∧
      (c.call node items (options.allowing strict) cancelAfter).outcome = .returned rs ∨
    ∃ (i : Nat) (f : Failure), rs[i]? = some (.error f) ∧
      (∀ j < i, ∃ value, rs[j]? = some (.ok value)) ∧
      (c.call node items (options.allowing strict) cancelAfter).outcome =
        .raised (.failure f)) := by
  have same := sentAndLogged_call c node items options cancelAfter strict
  refine ⟨congrArg Prod.fst same, congrArg Prod.snd same, ?_⟩
  rcases started_or_early c node items options cancelAfter with
    ⟨calls, chunks, r, limit, deadline, rfl, started⟩ | ⟨rfl, nothing⟩ | ⟨e, early, _⟩
  · rw [started.outcome_allowing allowed refused returned]
    rcases Reassembly.mapM_raiseFailure_cases rs with ⟨same, values⟩ | ⟨i, f, raised, here, before⟩
    · rw [same]
      exact .inl ⟨values, rfl⟩
    · rw [raised]
      exact .inr ⟨i, f, here, before, rfl⟩
  · rw [nothing] at returned
    cases returned
    refine .inl ⟨by simp, ?_⟩
    rw [call_nil_allowing, nothing]
  · rw [early] at returned
    cases returned

/-- A node that answers the first request as it should and refuses the others. -/
def failing : Node :=
  ⟨.ok .null, fun k _ => if k = 0 then .answer (Aggregate.response [⟨true, [1]⟩])
    else .fault "down", fun _ _ _ => none⟩

open scoped Platform.Lenient

/-- The call of the second chunk could not be encoded, but what is raised is that its chunk was
refused. -/
theorem raises_first_failure_refused :
    ((plain .tasks).call failing ([sound, broken].map .call)
        (({ batchSize := .int 4 } : CallOptions).allowing (.bool false)) none).outcome =
      .raised (.failure (.chunk (located 1 1 (.request "down")))) := by
  have started : (plain .tasks).Started
      (({ batchSize := .int 4 } : CallOptions).within (plain .tasks).settings)
      [sound, broken] [[.ofCall sound], [.ofCall broken]]
      ⟨some (.text Address.zero.text), false, .text "latest"⟩ (some 4) .never :=
    ⟨rfl, rfl, rfl, nofun, rfl, rfl, by decide, rfl, rfl⟩
  have answered : settleReaction 0 1 (.answer (Aggregate.response [⟨true, [1]⟩])) =
      some (.ok (.ok [⟨true, [1]⟩])) := settleReaction_response rfl length_response_sound
  have settled : await .tasks .never none ((plain .tasks).entriesFor failing
        ⟨some (.text Address.zero.text), false, .text "latest"⟩ (some 4)
        [[.ofCall sound], [.ofCall broken]] .never) =
      Schedule.gather [settleReaction 0 1 (.answer (Aggregate.response [⟨true, [1]⟩])),
        some (.ok (.error (located 1 1 (.request "down"))))] := rfl
  have returned : ((plain .tasks).call failing ([sound, broken].map .call)
      { batchSize := .int 4 } none).outcome =
        .returned [.ok (.tuple []), .error (.chunk (located 1 1 (.request "down")))] := by
    rw [started.outcome_call]
    show conclude _ _ _ (await .tasks _ _ _) = _
    rw [settled, answered]
    rfl
  obtain ⟨_, _, ends⟩ := raises_first_failure (plain .tasks) failing _ { batchSize := .int 4 } none
    (.bool false) _ rfl rfl returned
  rcases ends with ⟨values, _⟩ | ⟨i, f, here, before, raised⟩
  · obtain ⟨value, failed⟩ := values _ (List.mem_cons_of_mem _ List.mem_cons_self)
    cases failed
  · match i, here, raised with
    | 1, here, raised =>
        cases Option.some.inj here
        exact raised

end Client

end EthBatch
