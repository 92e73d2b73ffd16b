import EthBatch.Proofs.Call
import EthBatch.Proofs.Client.Batching

/-!
# One answer costs one entry, or the whole call

When all chunks of a call have come to an outcome, the calls are settled with their verdicts. A
call that reverts, or whose output does not decode, has a failure of its own, and the entries of
the others are not affected. An answer that breaks its call ends the whole run instead: it raises
a fault, even when failures are allowed, and the results of all chunks are lost.
-/

namespace EthBatch

open Abi Reassembly

namespace Client

/-- What the calls of a run are settled with, from the outcomes of its chunks. -/
def verdicts (chunks : List (List SubCall)) (os : List ChunkOutcome) : List Verdict :=
  ((chunks.map List.length).zip os).flatMap fun row => row.2.verdicts row.1

/-- Has a run started, and have its chunks come to outcomes? -/
def Waited (c : Client) (node : Node) (options : CallOptions) (cancelAfter : Option Nat)
    (calls : List Call) (chunks : List (List SubCall)) (os : List ChunkOutcome) : Prop :=
  ∃ r limit deadline, c.Started (options.within c.settings) calls chunks r limit deadline ∧
    await c.style deadline cancelAfter (c.entriesFor node r limit chunks deadline) = .settled os

variable {c : Client} {node : Node} {options : CallOptions} {cancelAfter : Option Nat}
variable {calls : List Call} {chunks : List (List SubCall)} {os : List ChunkOutcome}
variable {i : Nat} {call : Call} {v : Verdict} {f : Fault}

/-- Then the calls are settled with their verdicts one after the other. -/
theorem Waited.outcome [Platform] (h : Waited c node options cancelAfter calls chunks os) :
    (c.call node (calls.map .call) options cancelAfter).outcome =
      match settleEach options.allowFailure.truthy calls (verdicts chunks os) with
      | .ok rs => .returned rs
      | .error e => .raised e := by
  obtain ⟨r, limit, deadline, started, settled⟩ := h
  rw [started.outcome_call, settled, conclude, (fates_of_await settled).reassemble started]
  rfl

/-- A verdict that breaks its call takes the results of all calls. -/
theorem Waited.raised_of_broken [Platform] (h : Waited c node options cancelAfter calls chunks os)
    (allowed : options.allowFailure.truthy = true) (hcall : calls[i]? = some call)
    (verdict : (verdicts chunks os)[i]? = some v) (broken : Broken call v f) :
    ∃ g, (c.call node (calls.map .call) options cancelAfter).outcome = .raised (.fault g) := by
  obtain ⟨g, lost⟩ := settleEach_of_broken hcall verdict broken
  refine ⟨g, ?_⟩
  rw [h.outcome, allowed, lost]

/-- If no verdict breaks its call, there are results, and each call has the one of its verdict. -/
theorem Waited.returned_of_intact [Platform] (h : Waited c node options cancelAfter calls chunks os)
    (allowed : options.allowFailure.truthy = true) (intact : Intact calls (verdicts chunks os)) :
    ∃ rs, (c.call node (calls.map .call) options cancelAfter).outcome = .returned rs ∧
      ∀ (i : Nat) (call : Call) (v : Verdict), calls[i]? = some call →
        (verdicts chunks os)[i]? = some v →
          ∃ r, rs[i]? = some r ∧ settleOne true call v = .ok r := by
  obtain ⟨rs, results⟩ := intact.settleEach
  refine ⟨rs, ?_, ?_⟩
  · rw [h.outcome, allowed, results]
  · intro i call v hcall verdict
    exact getElem?_settleEach results hcall verdict

/-- If failures are not allowed, the first one is raised. -/
theorem Waited.raised_of_first [Platform] (h : Waited c node options cancelAfter calls chunks os)
    (refused : options.allowFailure.truthy = false) (hcall : calls[i]? = some call)
    (verdict : (verdicts chunks os)[i]? = some v) {e : Error}
    (error : settleOne false call v = .error e)
    (before : ∀ j < i, ∀ call v, calls[j]? = some call → (verdicts chunks os)[j]? = some v →
      ∃ r, settleOne false call v = .ok r) :
    (c.call node (calls.map .call) options cancelAfter).outcome = .raised e := by
  rw [h.outcome, refused, settleEach_eq_error.mpr ⟨i, call, v, hcall, verdict, error, before⟩]

/-! ## Reverted calls -/

/-- Revert data that can be read are the failure of the call alone. -/
theorem settle_reverted {e : Encoded} {data : Bytes} {reason : Option String}
    (encoded : call.encoding = .ok e) (read : Revert.read data = .ok ⟨data, reason⟩) :
    settle true call ⟨false, data⟩ = .ok (.error (.reverted ⟨data, reason⟩)) ∧
    settle false call ⟨false, data⟩ = .error (.failure (.reverted ⟨data, reason⟩)) := by
  simp [settle, Call.settle, encoded, read]

theorem exists_reason {data : Bytes} (readable : ∀ f, ¬ Revert.Unreadable data f) :
    ∃ reason, Revert.read data = .ok ⟨data, reason⟩ := by
  cases read : Revert.reasonOfData data with
  | ok reason => exact ⟨reason, by rw [Revert.read, read]; rfl⟩
  | error f => exact absurd (Revert.reasonOfData_eq_error.mp read) (readable f)

/-- A reverted call has a failure of its own unless its revert data are unreadable. Then settling
it ends in a fault, and a run that settles it returns nothing. -/
theorem reverts_alone_unless_unreadable [Platform] (data : Bytes) (call : Call) (e : Encoded)
    (encoded : call.encoding = .ok e) :
    (∀ f, Revert.read data = .error f ↔ Revert.Unreadable data f) ∧
    ((∀ f, ¬ Revert.Unreadable data f) → ∃ reason, Revert.read data = .ok ⟨data, reason⟩ ∧
      settle true call ⟨false, data⟩ = .ok (.error (.reverted ⟨data, reason⟩)) ∧
      settle false call ⟨false, data⟩ = .error (.failure (.reverted ⟨data, reason⟩))) ∧
    (∀ f allow, Revert.Unreadable data f →
      settle allow call ⟨false, data⟩ = .error (.fault (.decode f))) ∧
    ∀ (c : Client) (node : Node) (options : CallOptions) (cancelAfter : Option Nat)
      (calls : List Call) (chunks : List (List SubCall)) (os : List ChunkOutcome) (i : Nat),
      Waited c node options cancelAfter calls chunks os → calls[i]? = some call →
      (verdicts chunks os)[i]? = some (.ok ⟨false, data⟩) →
      (options.allowFailure.truthy = true → ∀ f, Revert.Unreadable data f →
        ∃ g, (c.call node (calls.map .call) options cancelAfter).outcome = .raised (.fault g)) ∧
      (options.allowFailure.truthy = true → Intact calls (verdicts chunks os) →
        ∃ rs reason, Revert.read data = .ok ⟨data, reason⟩ ∧
          (c.call node (calls.map .call) options cancelAfter).outcome = .returned rs ∧
          rs[i]? = some (.error (.reverted ⟨data, reason⟩))) ∧
      (options.allowFailure.truthy = false → (∀ f, ¬ Revert.Unreadable data f) →
        (∀ j < i, ∀ call v, calls[j]? = some call → (verdicts chunks os)[j]? = some v →
          ∃ r, settleOne false call v = .ok r) →
        ∃ reason, Revert.read data = .ok ⟨data, reason⟩ ∧
          (c.call node (calls.map .call) options cancelAfter).outcome =
            .raised (.failure (.reverted ⟨data, reason⟩))) := by
  have breaks {f : DecodeFault} (unreadable : Revert.Unreadable data f) :
      call.Breaks ⟨false, data⟩ (.decode f) := .revert encoded unreadable
  refine ⟨fun f => Revert.read_eq_error, ?_, ?_, ?_⟩
  · intro readable
    obtain ⟨reason, read⟩ := exists_reason readable
    exact ⟨reason, read, settle_reverted encoded read⟩
  · intro f allow unreadable
    exact settle_of_breaks (breaks unreadable) allow
  · intro c node options cancelAfter calls chunks os i waited hcall verdict
    refine ⟨?_, ?_, ?_⟩
    · intro allowed f unreadable
      exact waited.raised_of_broken allowed hcall verdict ⟨_, rfl, breaks unreadable⟩
    · intro allowed intact
      obtain ⟨rs, returned, entries⟩ := waited.returned_of_intact allowed intact
      obtain ⟨r, hr, settled⟩ := entries i call _ hcall verdict
      obtain ⟨reason, read⟩ := exists_reason fun f unreadable =>
        intact i call _ hcall verdict _ ⟨_, rfl, breaks unreadable⟩
      rw [settleOne, (settle_reverted encoded read).1] at settled
      cases settled
      exact ⟨rs, reason, read, returned, hr⟩
    · intro refused readable before
      obtain ⟨reason, read⟩ := exists_reason readable
      refine ⟨reason, read, waited.raised_of_first refused hcall verdict ?_ before⟩
      exact (settle_reverted encoded read).2

/-- Revert data with two bytes for a text that no text has. -/
def garbled : Bytes := Revert.errorSelector ++ (Bytes.word 0x20 ++ Kind.encodeBytes [0xff, 0xfe])

/-- There are revert data that cannot be read. -/
theorem exists_revert_not_read :
    ¬ ∀ data, ∃ reason, Revert.read data = .ok ⟨data, reason⟩ := by
  intro all
  obtain ⟨reason, read⟩ := all garbled
  have unread : Revert.read garbled = .error .notUtf8 := by decide +kernel
  rw [unread] at read
  cases read

/-- A call of a function that returns a text. -/
def worded : Call :=
  { address := .null, fn := .text "f", args := [], kwargs := some [], target := .zero
    encoding := .ok ⟨[("outputs", .list [.record [("type", .text "string")]])], [1, 2, 3, 4]⟩ }

section

open scoped Platform.Lenient

/-- A node that answers all calls alike. -/
def uniform (a : Answer) : Node :=
  ⟨.ok .null, fun _ r => Node.output (Node.answers (fun _ _ => a) [] r), fun _ _ _ => none⟩

theorem await_uniform {a : Answer} (fits : (Aggregate.response [a]).length < maxSize) :
    await (plain .pool).style .never none ((plain .pool).entriesFor (uniform a)
      ⟨some (.text Address.zero.text), false, .text "latest"⟩ (some 4)
      [[.ofCall broken], [.ofCall worded]] .never) =
    .settled ([[SubCall.ofCall broken], [.ofCall worded]].map fun chunk =>
      .ok (Node.answersTo (fun _ _ => a) chunk)) := by
  have serves : (uniform a).Serves (fun _ _ => a) (plain .pool).wrapper := fun _ _ => rfl
  apply await_of_serves serves (fun _ => rfl)
  · decide
  · decide +kernel
  · intro chunk h
    rcases List.mem_cons.mp h with rfl | h
    · exact fits
    · obtain rfl := List.mem_singleton.mp h
      exact fits

theorem waited_uniform {a : Answer} (fits : (Aggregate.response [a]).length < maxSize) :
    Waited (plain .pool) (uniform a) { batchSize := .int 2 } none [broken, worded]
      [[.ofCall broken], [.ofCall worded]] [.ok [a], .ok [a]] :=
  ⟨_, _, _, ⟨rfl, rfl, rfl, nofun, rfl, rfl, by decide, rfl, rfl⟩, await_uniform fits⟩

/-- The entry of the first call is lost with the second one. -/
theorem reverts_alone_unless_unreadable_garbled :
    ∃ g, ((plain .pool).call (uniform ⟨false, garbled⟩) ([broken, worded].map .call)
      { batchSize := .int 2 } none).outcome = .raised (.fault g) := by
  obtain ⟨unread, _, _, run⟩ := reverts_alone_unless_unreadable garbled worded _ rfl
  have waited := waited_uniform (a := ⟨false, garbled⟩) (by rw [Aggregate.length_response]; decide)
  exact (run _ _ _ _ _ _ _ 1 waited rfl rfl).1 rfl .notUtf8
    ((unread .notUtf8).mp (by decide +kernel))

end

/-! ## Output -/

/-- Output that is not decoded is the failure of the call alone. -/
theorem settle_undecodable {e : Encoded} {data : Bytes} {f : Fault}
    (encoded : call.encoding = .ok e) (given : data ≠ [])
    (read : Call.decodeOutput e.function data = .ok (.error f)) :
    settle true call ⟨true, data⟩ = .ok (.error (.undecodable call.fn f)) ∧
    settle false call ⟨true, data⟩ = .error (.failure (.undecodable call.fn f)) := by
  have nonempty : data.isEmpty = false := by simpa using given
  simp [settle, Call.settle, encoded, read, nonempty]

theorem settle_decoded {e : Encoded} {data : Bytes} {v : Value} (allow : Bool)
    (encoded : call.encoding = .ok e) (given : data ≠ [])
    (read : Call.decodeOutput e.function data = .ok (.ok v)) :
    settle allow call ⟨true, data⟩ = .ok (.ok v) := by
  have nonempty : data.isEmpty = false := by simpa using given
  simp [settle, Call.settle, encoded, read, nonempty]

/-- Output of a call is decoded, or it is the failure of the call, unless nothing catches the
fault of it. Then settling the call ends in the fault, and a run that settles it returns
nothing. -/
theorem decodes_unless_uncaught [Platform] (data : Bytes) (call : Call) (e : Encoded)
    (encoded : call.encoding = .ok e) (given : data ≠ []) :
    (∀ f, Call.decodeOutput e.function data = .error f ↔ Call.Uncaught e.function data f) ∧
    ((∀ f, ¬ Call.Uncaught e.function data f) →
      (∃ v, Call.decodeOutput e.function data = .ok (.ok v) ∧
        ∀ allow, settle allow call ⟨true, data⟩ = .ok (.ok v)) ∨
      ∃ f, Call.decodeOutput e.function data = .ok (.error f) ∧
        settle true call ⟨true, data⟩ = .ok (.error (.undecodable call.fn f)) ∧
        settle false call ⟨true, data⟩ = .error (.failure (.undecodable call.fn f))) ∧
    (∀ f allow, Call.Uncaught e.function data f →
      settle allow call ⟨true, data⟩ = .error (.fault f)) ∧
    ∀ (c : Client) (node : Node) (options : CallOptions) (cancelAfter : Option Nat)
      (calls : List Call) (chunks : List (List SubCall)) (os : List ChunkOutcome) (i : Nat),
      Waited c node options cancelAfter calls chunks os → calls[i]? = some call →
      (verdicts chunks os)[i]? = some (.ok ⟨true, data⟩) →
      options.allowFailure.truthy = true →
      (∀ f, Call.Uncaught e.function data f →
        ∃ g, (c.call node (calls.map .call) options cancelAfter).outcome = .raised (.fault g)) ∧
      (Intact calls (verdicts chunks os) →
        ∃ rs, (c.call node (calls.map .call) options cancelAfter).outcome = .returned rs ∧
          ((∃ v, Call.decodeOutput e.function data = .ok (.ok v) ∧ rs[i]? = some (.ok v)) ∨
          ∃ f, Call.decodeOutput e.function data = .ok (.error f) ∧
            rs[i]? = some (.error (.undecodable call.fn f)))) := by
  have breaks {f : Fault} (uncaught : Call.Uncaught e.function data f) :
      call.Breaks ⟨true, data⟩ f := .output encoded given uncaught
  refine ⟨fun f => Call.decodeOutput_eq_error, ?_, ?_, ?_⟩
  · intro caught
    match read : Call.decodeOutput e.function data with
    | .ok (.ok v) => exact .inl ⟨v, rfl, fun allow => settle_decoded allow encoded given read⟩
    | .ok (.error f) => exact .inr ⟨f, rfl, settle_undecodable encoded given read⟩
    | .error f => exact absurd (Call.decodeOutput_eq_error.mp read) (caught f)
  · intro f allow uncaught
    exact settle_of_breaks (breaks uncaught) allow
  · intro c node options cancelAfter calls chunks os i waited hcall verdict allowed
    constructor
    · intro f uncaught
      exact waited.raised_of_broken allowed hcall verdict ⟨_, rfl, breaks uncaught⟩
    · intro intact
      obtain ⟨rs, returned, entries⟩ := waited.returned_of_intact allowed intact
      obtain ⟨r, hr, settled⟩ := entries i call _ hcall verdict
      refine ⟨rs, returned, ?_⟩
      match read : Call.decodeOutput e.function data with
      | .ok (.ok v) =>
          rw [settleOne, settle_decoded true encoded given read] at settled
          cases settled
          exact .inl ⟨v, rfl, hr⟩
      | .ok (.error f) =>
          rw [settleOne, (settle_undecodable encoded given read).1] at settled
          cases settled
          exact .inr ⟨f, rfl, hr⟩
      | .error f =>
          have uncaught := Call.decodeOutput_eq_error.mp read
          exact absurd ⟨_, rfl, breaks uncaught⟩ (intact i call _ hcall verdict f)

/-- Output with a text whose length is that of more bytes than there can be. -/
def endless : Bytes := Bytes.word 0x20 ++ Bytes.word (2 ^ 256 - 1)

open scoped Platform.Lenient

/-- The call of a function without inputs that returns a text. -/
def textCall : Except Fault Call :=
  Call.make (.bytes (Bytes.zeros 20)) (.list [.record [("type", .text "function"),
    ("name", .text "f"), ("inputs", .list []),
    ("outputs", .list [.record [("type", .text "string")]])]]) (.text "f") .null .null

/-- A call that could be encoded need not decode its output or refuse it. -/
theorem exists_output_not_decoded :
    ¬ ∀ (target interface fn args kwargs : Value) (call : Call) (e : Encoded) (data : Bytes),
      Call.make target interface fn args kwargs = .ok call → call.encoding = .ok e → data ≠ [] →
        ∃ result, Call.decodeOutput e.function data = .ok result := by
  intro all
  have fault : (textCall.toOption.bind fun call => call.encoding.toOption.map fun e =>
      match Call.decodeOutput e.function endless with
      | .ok _ => false
      | .error _ => true) = some true := by
    decide +kernel
  obtain ⟨call, made, h⟩ := Option.bind_eq_some_iff.mp fault
  obtain ⟨e, encoded, h⟩ := Option.map_eq_some_iff.mp h
  have ok {α β : Type} {x : Except α β} {b : β} (hx : x.toOption = some b) : x = .ok b := by
    cases x with
    | error a => cases hx
    | ok b' => exact congrArg _ (Option.some.inj hx)
  obtain ⟨result, read⟩ := all _ _ _ _ _ call e endless (ok made) (ok encoded) (by decide)
  rw [read] at h
  cases h

/-- The entry of the first call is lost with the output of the second one. -/
theorem decodes_unless_uncaught_endless :
    ∃ g, ((plain .pool).call (uniform ⟨true, endless⟩) ([broken, worded].map .call)
      { batchSize := .int 2 } none).outcome = .raised (.fault g) := by
  obtain ⟨unread, _, _, run⟩ := decodes_unless_uncaught endless worded _ rfl (by decide)
  have waited := waited_uniform (a := ⟨true, endless⟩) (by rw [Aggregate.length_response]; decide)
  exact (run _ _ _ _ _ _ _ 1 waited rfl rfl rfl).1 (.decode .tooLong)
    ((unread _).mp rfl)

end Client

end EthBatch
