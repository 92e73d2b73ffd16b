import EthBatch.Proofs.Call.Making
import EthBatch.Proofs.Client.Entries

/-!
# A chunk never fails for what its calls say

The error of a chunk that a run reports is the fate of that chunk: it is decided by the deadline and
by what the node does with the request. There is a request for every chunk of calls, whatever they
are made from, because a call that is made always has an account to call and, if there are calldata
at all, a selector in front of whole words.
-/

namespace EthBatch

open Abi

/-- Does a run end with the error of a chunk, raised or as an entry of its results? -/
inductive RunOutcome.Reports (e : ChunkError) : RunOutcome → Prop where
  | raised : Reports e (.raised (.failure (.chunk e)))
  | returned {results : List CallResult} (mem : .error (.chunk e) ∈ results) :
      Reports e (.returned results)

namespace Reassembly

variable {allow : Bool} {c : Call} {calls : List Call} {v : Verdict} {vs : List Verdict}
variable {rs : List CallResult} {e : ChunkError}

/-- An answer is never read as the error of a chunk. -/
theorem settle_ne_chunk (c : Call) (a : Answer) : c.settle a ≠ .ok (.error (.chunk e)) := by
  unfold Call.settle
  repeat' split
  all_goals simp

theorem verdict_of_settleOne (h : settleOne allow c v = .ok (.error (.chunk e)) ∨
    settleOne allow c v = .error (.failure (.chunk e))) : v = .error e := by
  cases v with
  | error e' => cases allow <;> simp_all [settleOne]
  | ok a =>
      simp only [settleOne, settle] at h
      split at h
      · simp at h
      · next f failed =>
        suffices f = .chunk e from absurd (this ▸ failed) (settle_ne_chunk c a)
        cases allow <;> simp_all
      · simp at h

/-- The error of a chunk is reported only for a call that has it for its verdict. -/
theorem verdict_of_settleEach_eq_ok (h : settleEach allow calls vs = .ok rs)
    (mem : .error (.chunk e) ∈ rs) : .error e ∈ vs := by
  induction calls generalizing vs rs with
  | nil =>
      cases h
      cases mem
  | cons c calls ih =>
      cases vs with
      | nil =>
          cases h
          cases mem
      | cons v vs =>
          obtain ⟨r, here, h⟩ := Except.bind_eq_ok.mp h
          obtain ⟨rest, later, h⟩ := Except.bind_eq_ok.mp h
          obtain rfl := Except.ok.inj h
          rcases List.mem_cons.mp mem with rfl | mem
          · rw [verdict_of_settleOne (.inl here)]
            exact List.mem_cons_self
          · exact List.mem_cons_of_mem v (ih later mem)

theorem verdict_of_settleEach_eq_error
    (h : settleEach allow calls vs = .error (.failure (.chunk e))) : .error e ∈ vs := by
  induction calls generalizing vs with
  | nil => cases h
  | cons c calls ih =>
      cases vs with
      | nil => cases h
      | cons v vs =>
          rcases Except.bind_eq_error.mp h with here | ⟨r, _, h⟩
          · rw [verdict_of_settleOne (.inr here)]
            exact List.mem_cons_self
          · have later := (Except.bind_eq_error.mp h).resolve_right (by simp)
            exact List.mem_cons_of_mem v (ih later)

end Reassembly

namespace Client

variable {c : Client} {node : Node} {items : List CallItem} {options : CallOptions}
variable {cancelAfter : Option Nat} {chunks : List (List SubCall)} {r : Route}
variable {limit : Option Nat} {deadline : Schedule.Deadline} {os : List ChunkOutcome}
variable {e : ChunkError}

/-- The error of a chunk has to do with the deadline or with the node. -/
theorem Fate.problem_ne_unencodable {seconds : Option Value} {index size : Nat} {isSent : Bool}
    {x : Reaction} (h : Fate seconds index size isSent x (.error e)) (f : EncodeFault) :
    e.problem ≠ .unencodable f := by
  cases h <;> simp [located]

/-- An error among the verdicts is the fate of a chunk. -/
theorem Fates.of_mem (h : Fates c node chunks r limit deadline os)
    (mem : .error e ∈ ((chunks.map List.length).zip os).flatMap fun row => row.2.verdicts row.1) :
    ∃ k chunk, chunks[k]? = some chunk ∧ Fate deadline.seconds? k chunk.length
      (c.isSent node r limit chunks deadline k) (c.reaction node r k chunk) (.error e) := by
  obtain ⟨⟨size, o⟩, row, mem⟩ := List.mem_flatMap.mp mem
  obtain rfl : o = .error e := by
    cases o with
    | error e' => rw [Except.error.inj (List.eq_of_mem_replicate mem)]
    | ok answers => simp [ChunkOutcome.verdicts] at mem
  obtain ⟨k, hk⟩ := List.getElem?_of_mem row
  rw [List.getElem?_zip_eq_some, List.getElem?_map, Option.map_eq_some_iff] at hk
  obtain ⟨⟨chunk, hchunk, _⟩, ho⟩ := hk
  exact ⟨k, chunk, hchunk, h.2 k chunk _ hchunk ho⟩

/-- Every error of a chunk that a run reports is the fate of one of its chunks. -/
theorem fate_of_reports [Platform]
    (h : (c.call node items options cancelAfter).outcome.Reports e) :
    ∃ calls chunks r limit deadline k chunk, items = calls.map .call ∧
      c.Started (options.within c.settings) calls chunks r limit deadline ∧
      chunks[k]? = some chunk ∧ Fate deadline.seconds? k chunk.length
        (c.isSent node r limit chunks deadline k) (c.reaction node r k chunk) (.error e) := by
  rcases call_cases c node items options cancelAfter with
    ⟨calls, chunks, r, limit, deadline, rfl, started⟩ | ⟨outcome, log, early, ended⟩
  · rw [started.outcome_call] at h
    cases ending : await c.style deadline cancelAfter
        (c.entriesFor node r limit chunks deadline) with
    | settled os =>
        have fates := fates_of_await ending
        suffices .error e ∈ ((chunks.map List.length).zip os).flatMap
            fun row => row.2.verdicts row.1 by
          obtain ⟨k, chunk, hchunk, fate⟩ := fates.of_mem this
          exact ⟨calls, chunks, r, limit, deadline, k, chunk, rfl, started, hchunk, fate⟩
        rw [ending, conclude, fates.reassemble started] at h
        split at h
        · next rs settled =>
          cases h with
          | returned mem => exact Reassembly.verdict_of_settleEach_eq_ok settled mem
        · next failed =>
          cases h
          exact Reassembly.verdict_of_settleEach_eq_error failed
    | escaped f | cancelled | pending =>
        rw [ending] at h
        cases h
  · rw [early] at h
    rcases ended with ⟨_, rfl⟩ | ⟨refused, rfl, refusal⟩
    · cases h with
      | returned mem => cases mem
    · cases h
      exact (refusal.ne_failure _ rfl).elim

/-- Calls that are made have accounts and calldata that the aggregator's interface takes, every
chunk of them has a request, and no chunk fails for want of one. -/
theorem builds_every_chunk [Platform] {calls : List Call} (made : ∀ call ∈ calls, call.IsMade) :
    (∀ call ∈ calls,
      (Address.ofValue call.address = .ok call.target ∨
        ((∃ cause, Address.ofValue call.address = .error cause) ∧ call.target = .zero)) ∧
      Kind.encode .address (.text call.target.text) = .ok (Bytes.padStart 0 call.target.bytes) ∧
      (call.data = [] ∨ ∃ selector body, selector.length = 4 ∧ 32 ∣ body.length ∧
        call.data = selector ++ body)) ∧
    (∀ batchSize chunks, plan calls batchSize = .ok chunks → ∀ chunk ∈ chunks,
      ∀ (c : Client) (address : Option Value) (deployless : Bool) (block : Value),
        ∃ r, c.request (chunk.map SubCall.toValue) address deployless block = .ok r) ∧
    ∀ (c : Client) (node : Node) (items : List CallItem) (options : CallOptions)
      (cancelAfter : Option Nat), prepare items = .ok calls → ∀ e,
        (c.call node items options cancelAfter).outcome.Reports e →
          ∀ f, e.problem ≠ .unencodable f := by
  refine ⟨fun call mem => ?_, ?_, ?_⟩
  · obtain ⟨_, _, _, _, _, made⟩ := (made call mem).made
    -- The text of an account carries its checksum, so every encoder takes it.
    have taken : Kind.isTaken (.text call.target.text) = true := Platform.takes_text _
    have denoted : Kind.addressBytes? (.text call.target.text) = some call.target.bytes := by
      simp [Kind.addressBytes?]
    exact ⟨made.target_eq, Kind.encode_address.mpr ⟨_, denoted, taken, rfl⟩, made.data_eq⟩
  · intro _ _ _ chunk _ c address deployless block
    exact ⟨_, c.request_toValue ⟨address, deployless, block⟩ chunk⟩
  · intro c node items options cancelAfter _ e reports
    obtain ⟨_, _, _, _, _, _, _, _, _, _, fate⟩ := fate_of_reports reports
    exact fate.problem_ne_unencodable

open scoped Platform.Lenient

/-- A call of an address that is none. -/
def misplaced : Call :=
  Call.build (.text "nowhere") (.text "f") .null (some []) .zero
    (.error ⟨.target, .text "nowhere", .badValue⟩)

/-- A function of an account and a number. -/
def transfer : Value :=
  .list [.record [("type", .text "function"), ("name", .text "transfer"), ("inputs", .list
    [.record [("name", .text "to"), ("type", .text "address")],
      .record [("name", .text "value"), ("type", .text "uint256")]])]]

/-- The two arguments stand in whole words behind the selector. -/
theorem builds_every_chunk_misplaced : ∃ sent,
    Call.make Call.someTarget transfer (.text "transfer") (.list [Call.someTarget, .int 7]) .null =
      .ok sent ∧ sent.data.length = 68 ∧
    (∀ call ∈ [misplaced, sent], call.IsMade) ∧
    ∃ r, (plain .tasks).request ([misplaced, sent].map fun call => (SubCall.ofCall call).toValue)
      none true (.text "latest") = .ok r := by
  have length : ((Call.make Call.someTarget transfer (.text "transfer")
      (.list [Call.someTarget, .int 7]) .null).toOption.map fun call => call.data.length) =
        some 68 := by
    decide +kernel
  obtain ⟨sent, made, length⟩ := Option.map_eq_some_iff.mp length
  have made := Except.toOption_eq_some.mp made
  have each : ∀ call ∈ [misplaced, sent], call.IsMade :=
    List.forall_mem_cons.mpr ⟨⟨.text "nowhere", .null, .text "f", .null, .null, by rfl⟩,
      List.forall_mem_singleton.mpr ⟨_, _, _, _, _, made⟩⟩
  have ⟨_, requests, _⟩ := builds_every_chunk each
  exact ⟨sent, made, length, each, requests (.int 0) [[.ofCall misplaced, .ofCall sent]] rfl _
    List.mem_cons_self (plain .tasks) none true (.text "latest")⟩

end Client

end EthBatch
