import EthBatch.Proofs.Client.Request
import EthBatch.Proofs.Client.Schedule
import EthBatch.Proofs.Reassembly

/-!
# The fate of a chunk

What a chunk comes to is decided by the deadline, by whether it is sent, and by what the node
does with its own request.
-/

namespace EthBatch

namespace Schedule.Deadline

/-- The seconds of a deadline, passed or not. -/
def seconds? : Deadline → Option Value
  | .never => none
  | .passed seconds => some seconds
  | .ahead seconds => some seconds

/-- Is no time left at the start? -/
def isOver : Deadline → Bool
  | .passed _ => true
  | _ => false

end Schedule.Deadline

namespace Client

/-- The fate of a chunk of a given place and size: the seconds of the deadline, whether the chunk
is sent, and what the node does with its request. -/
inductive Fate (seconds : Option Value) (index size : Nat) (isSent : Bool) (x : Reaction) :
    ChunkOutcome → Prop where
  | timedOut {s : Value} (deadline : seconds = some s) (late : isSent = false ∨ x = .hang) :
      Fate seconds index size isSent x (.error (located index size (.timeout s)))
  | refused {text : String} (sent : isSent = true) (h : x = .fault text) :
      Fate seconds index size isSent x (.error (located index size (.request text)))
  | empty {raw : Bytes} (sent : isSent = true) (h : x = .answer raw)
      (read : Aggregate.decode raw = .error .empty) :
      Fate seconds index size isSent x (.error (located index size .emptyOutput))
  | undecodable {raw : Bytes} {f : Abi.DecodeFault} (sent : isSent = true) (h : x = .answer raw)
      (read : Aggregate.decode raw = .error (.undecodable f)) :
      Fate seconds index size isSent x (.error (located index size (.undecodable f)))
  | miscounted {raw : Bytes} {answers : List Answer} (sent : isSent = true)
      (h : x = .answer raw) (read : Aggregate.decode raw = .ok answers)
      (count : answers.length ≠ size) :
      Fate seconds index size isSent x
        (.error (located index size (.wrongCount answers.length size)))
  | answered {raw : Bytes} {answers : List Answer} (sent : isSent = true) (h : x = .answer raw)
      (read : Aggregate.decode raw = .ok answers) (count : answers.length = size) :
      Fate seconds index size isSent x (.ok answers)

variable {seconds : Option Value} {index size : Nat} {isSent : Bool} {x : Reaction}

/-- The answers of a chunk are as many as its calls. -/
theorem Fate.fits {o : ChunkOutcome} (h : Fate seconds index size isSent x o) : o.Fits size := by
  intro answers same
  subst same
  cases h
  assumption

/-- There is one fate only. -/
theorem Fate.unique {o o' : ChunkOutcome} (h : Fate seconds index size isSent x o)
    (h' : Fate seconds index size isSent x o') : o = o' := by
  cases h <;> cases h' <;> simp_all

/-- What has been made of a reaction is the fate of a chunk that was sent. -/
theorem fate_of_settleReaction {o : ChunkOutcome}
    (h : settleReaction index size x = some (.ok o)) : Fate seconds index size true x o := by
  cases x with
  | hang => cases h
  | fault text =>
      cases h
      exact .refused rfl rfl
  | answer raw =>
      obtain ⟨read, hread, rfl⟩ := Except.map_eq_ok.mp (Option.some.inj h)
      unfold readOutput at hread
      split at hread
      · next empty =>
        obtain rfl := Except.ok.inj hread
        exact .empty rfl rfl empty
      · next f undecodable =>
        split at hread
        · obtain rfl := Except.ok.inj hread
          exact .undecodable rfl rfl undecodable
        · cases hread
      · next answers ok =>
        split at hread
        · next count =>
          obtain rfl := Except.ok.inj hread
          exact .answered rfl rfl ok count
        · next count =>
          obtain rfl := Except.ok.inj hread
          exact .miscounted rfl rfl ok count

theorem settleReaction_eq_none : settleReaction index size x = none ↔ x = .hang := by
  cases x <;> simp [settleReaction]

/-- A fault that is not turned into the error of the chunk is one that the format does not
declare. -/
theorem fault_of_settleReaction {f : Fault} (h : settleReaction index size x = some (.error f)) :
    ∃ raw cause, x = .answer raw ∧ Aggregate.decode raw = .error (.undecodable cause) ∧
      cause.isDeclared = false ∧ f = .decode cause := by
  cases x with
  | hang => cases h
  | fault text => cases h
  | answer raw =>
      have read := Except.map_eq_error.mp (Option.some.inj h)
      unfold readOutput at read
      split at read
      · cases read
      · next cause undecodable =>
        split at read
        · cases read
        · next undeclared =>
          obtain rfl := Except.error.inj read
          exact ⟨raw, cause, rfl, undecodable, by simpa using undeclared, rfl⟩
      · split at read <;> cases read

section Task

variable {deadline : Schedule.Deadline} {request : Option Request}
variable (late : deadline.isOver = true → isSent = false)

include late

/-- A chunk escapes with a fault only if it was sent and its own answer has the fault. -/
theorem fault_of_task {f : Fault}
    (h : Schedule.task deadline index ⟨size, ⟨request, settleReaction index size x⟩, isSent⟩ =
      some (.error f)) :
    isSent = true ∧ settleReaction index size x = some (.error f) := by
  have result : Schedule.Entry.result ⟨size, ⟨request, settleReaction index size x⟩, isSent⟩ =
      some (.error f) := by
    cases deadline with
    | never => exact h
    | passed s => cases h
    | ahead s =>
        simp only [Schedule.task, Option.some.injEq] at h
        cases hresult : Schedule.Entry.result
            ⟨size, ⟨request, settleReaction index size x⟩, isSent⟩ with
        | some result => rw [← h, hresult, Option.getD_some]
        | none =>
            rw [hresult] at h
            cases h
  cases isSent with
  | false => cases result
  | true => exact ⟨rfl, result⟩

/-- The outcome with which the waiting for a chunk ends is its fate. -/
theorem fate_of_task {o : ChunkOutcome}
    (h : Schedule.task deadline index ⟨size, ⟨request, settleReaction index size x⟩, isSent⟩ =
      some (.ok o)) :
    Fate deadline.seconds? index size isSent x o := by
  have own {seconds : Option Value}
      (h : Schedule.Entry.result ⟨size, ⟨request, settleReaction index size x⟩, isSent⟩ =
        some (.ok o)) : Fate seconds index size isSent x o := by
    cases isSent with
    | false => cases h
    | true => exact fate_of_settleReaction h
  cases deadline with
  | never => exact own h
  | passed s =>
      cases h
      exact .timedOut rfl (.inl (late rfl))
  | ahead s =>
      simp only [Schedule.task, Option.some.injEq] at h
      cases hresult : Schedule.Entry.result
          ⟨size, ⟨request, settleReaction index size x⟩, isSent⟩ with
      | some result =>
          rw [hresult] at h
          subst h
          exact own hresult
      | none =>
          rw [hresult] at h
          obtain rfl := Except.ok.inj h
          refine .timedOut rfl ?_
          cases isSent with
          | false => exact .inl rfl
          | true => exact .inr (settleReaction_eq_none.mp hresult)

/-- What is made of the reaction is what a chunk that is sent comes to. -/
theorem task_of_isSent {result : Except Fault ChunkOutcome} (sent : isSent = true)
    (h : settleReaction index size x = some result) :
    Schedule.task deadline index ⟨size, ⟨request, settleReaction index size x⟩, isSent⟩ =
      some result := by
  subst sent
  cases deadline with
  | never => exact h
  | passed s => cases late rfl
  | ahead s =>
      rw [h]
      rfl

end Task

end Client

end EthBatch
