import EthBatch.Proofs.Client.Entries
import EthBatch.Proofs.Output

/-!
# Oversized output ends the whole call

Every chunk settles for itself, whatever its request is answered with, as long as the answer is
not oversized. The fault of oversized output is caught by nobody: it leaves the chunk, and the
call raises it in place of the results of all chunks, even when failures are allowed.
-/

namespace EthBatch

open Aggregate (Oversized)

namespace Client

/-- The fault that leaves a chunk is that of oversized output. -/
theorem settleReaction_eq_fault {index size : Nat} {x : Reaction} {f : Fault} :
    settleReaction index size x = some (.error f) ↔
      ∃ raw, x = .answer raw ∧ Oversized raw ∧ f = .decode .tooLong := by
  constructor
  · intro h
    obtain ⟨raw, cause, rfl, undecodable, undeclared, rfl⟩ := fault_of_settleReaction h
    obtain ⟨rfl, oversized⟩ := Aggregate.decode_eq_undeclared.mp ⟨undecodable, undeclared⟩
    exact ⟨raw, rfl, oversized, rfl⟩
  · rintro ⟨raw, rfl, oversized, rfl⟩
    have undecodable := (Aggregate.decode_eq_undeclared.mpr ⟨rfl, oversized⟩).1
    simp only [settleReaction, readOutput, undecodable]
    rfl

variable {c : Client} {node : Node} {options : CallOptions} {o : CallOptions}
variable {calls : List Call} {chunks : List (List SubCall)}
variable {r : Route} {limit : Option Nat} {deadline : Schedule.Deadline}

/-- Some request is sent and answered with oversized output. -/
def Spoiled (c : Client) (node : Node) (chunks : List (List SubCall)) (r : Route)
    (limit : Option Nat) (deadline : Schedule.Deadline) : Prop :=
  ∃ k chunk raw, chunks[k]? = some chunk ∧
    c.isSent node r limit chunks deadline k = true ∧
    c.reaction node r k chunk = .answer raw ∧ Oversized raw

/-- The waiting has an end: there is a deadline, or every request is sent and none hangs. -/
def AllEnd (c : Client) (node : Node) (chunks : List (List SubCall)) (r : Route)
    (limit : Option Nat) (deadline : Schedule.Deadline) : Prop :=
  deadline.seconds?.isSome = true ∨ ∀ k chunk, chunks[k]? = some chunk →
    c.isSent node r limit chunks deadline k = true ∧ c.reaction node r k chunk ≠ .hang

theorem exists_of_mem_tasks {t : Option (Except Fault ChunkOutcome)}
    (h : t ∈ Schedule.tasks deadline (c.entriesFor node r limit chunks deadline)) :
    ∃ k chunk, chunks[k]? = some chunk ∧ t = Schedule.task deadline k ⟨chunk.length,
      ⟨some (c.requestFor r chunk),
        settleReaction k chunk.length (c.reaction node r k chunk)⟩,
      c.isSent node r limit chunks deadline k⟩ := by
  obtain ⟨k, hk⟩ := List.getElem?_of_mem h
  have inside : k < chunks.length := by
    have := (List.getElem?_eq_some_iff.mp hk).1
    simpa [Schedule.tasks] using this
  have hchunk : chunks[k]? = some chunks[k] := List.getElem?_eq_getElem inside
  rw [getElem?_tasks_entriesFor c node r limit deadline hchunk] at hk
  exact ⟨k, chunks[k], hchunk, (Option.some.inj hk).symm⟩

theorem AllEnd.none_not_mem (h : AllEnd c node chunks r limit deadline) :
    none ∉ Schedule.tasks deadline (c.entriesFor node r limit chunks deadline) := by
  intro mem
  obtain ⟨k, chunk, hchunk, none⟩ := exists_of_mem_tasks mem
  rcases h with dated | ends
  · cases deadline with
    | never => cases dated
    | passed s => cases none
    | ahead s => cases none
  · obtain ⟨sent, answered⟩ := ends k chunk hchunk
    cases result : settleReaction k chunk.length (c.reaction node r k chunk) with
    | none => exact answered (settleReaction_eq_none.mp result)
    | some result' =>
        rw [task_of_isSent (isSent_of_isOver c node r limit chunks · k) sent result] at none
        cases none

/-- Without oversized output every chunk settles, and a run goes on to its results. -/
theorem AllEnd.settled (h : AllEnd c node chunks r limit deadline)
    (clean : ¬ Spoiled c node chunks r limit deadline) :
    ∃ os, await c.style deadline none (c.entriesFor node r limit chunks deadline) = .settled os ∧
      Fates c node chunks r limit deadline os := by
  rcases Schedule.await_cases c.style deadline (c.entriesFor node r limit chunks deadline) with
    ⟨os, settled⟩ | ⟨f, escaped⟩ | pending
  · exact ⟨os, settled, fates_of_await settled⟩
  · obtain ⟨k, chunk, hchunk, sent, fault⟩ := fault_of_await c node r limit escaped
    obtain ⟨raw, answer, oversized, _⟩ := settleReaction_eq_fault.mp fault
    exact absurd ⟨k, chunk, raw, hchunk, sent, answer, oversized⟩ clean
  · exact absurd pending h.none_not_mem

/-- Oversized output ends the waiting for all chunks. -/
theorem AllEnd.escaped (h : AllEnd c node chunks r limit deadline)
    (spoiled : Spoiled c node chunks r limit deadline) :
    await c.style deadline none (c.entriesFor node r limit chunks deadline) =
      .escaped (.decode .tooLong) := by
  rcases Schedule.await_cases c.style deadline (c.entriesFor node r limit chunks deadline) with
    ⟨os, settled⟩ | ⟨f, escaped⟩ | pending
  · obtain ⟨k, chunk, raw, hchunk, sent, answer, oversized⟩ := spoiled
    have fault : settleReaction k chunk.length (c.reaction node r k chunk) =
        some (.error (.decode .tooLong)) :=
      settleReaction_eq_fault.mpr ⟨raw, answer, oversized, rfl⟩
    have task := getElem?_tasks_entriesFor c node r limit deadline hchunk
    rw [task_of_isSent (isSent_of_isOver c node r limit chunks · k) sent fault,
      Schedule.tasks_of_await settled] at task
    exact absurd (List.mem_of_getElem? task) Schedule.not_mem_settled
  · obtain ⟨k, chunk, hchunk, sent, fault⟩ := fault_of_await c node r limit escaped
    obtain ⟨raw, answer, oversized, rfl⟩ := settleReaction_eq_fault.mp fault
    exact escaped
  · exact absurd pending h.none_not_mem

/-- Decoding the output of a chunk ends as it should unless the output is oversized, and a call
whose chunks all end comes to the results of its chunks unless one of them has oversized output;
then it raises the fault of that. -/
theorem settles_unless_oversized [Platform] (raw : Bytes) (index size : Nat) (x : Reaction)
    (f : Fault) (c : Client) (node : Node) (options : CallOptions) (calls : List Call)
    (chunks : List (List SubCall)) (r : Route) (limit : Option Nat) (deadline : Schedule.Deadline) :
    (Oversized raw ↔ Aggregate.decode raw = .error (.undecodable .tooLong)) ∧
    (¬ Oversized raw → (∃ answers, Aggregate.decode raw = .ok answers) ∨
      Aggregate.decode raw = .error .empty ∨
      ∃ f, f.isDeclared = true ∧ Aggregate.decode raw = .error (.undecodable f)) ∧
    (settleReaction index size x = some (.error f) ↔
      ∃ raw, x = .answer raw ∧ Oversized raw ∧ f = .decode .tooLong) ∧
    (c.Started (options.within c.settings) calls chunks r limit deadline →
      AllEnd c node chunks r limit deadline →
      (¬ Spoiled c node chunks r limit deadline →
        ∃ os, Fates c node chunks r limit deadline os ∧
          (c.call node (calls.map .call) options none).outcome =
            conclude calls (chunks.map List.length) options.allowFailure.truthy (.settled os)) ∧
      (Spoiled c node chunks r limit deadline →
        (c.call node (calls.map .call) options none).outcome =
          .raised (.fault (.decode .tooLong)))) := by
  refine ⟨?_, ?_, settleReaction_eq_fault, ?_⟩
  · constructor
    · intro oversized
      exact (Aggregate.decode_eq_undeclared.mpr ⟨rfl, oversized⟩).1
    · intro refused
      exact (Aggregate.decode_eq_undeclared.mp ⟨refused, rfl⟩).2
  · intro fine
    match h : Aggregate.decode raw with
    | .ok answers => exact .inl ⟨answers, rfl⟩
    | .error .empty => exact .inr (.inl rfl)
    | .error (.undecodable f) =>
        cases declared : f.isDeclared with
        | true => exact .inr (.inr ⟨f, declared, rfl⟩)
        | false => exact absurd (Aggregate.decode_eq_undeclared.mp ⟨h, declared⟩).2 fine
  · intro started ends
    rw [started.outcome_call]
    constructor
    · intro clean
      obtain ⟨os, settled, fates⟩ := ends.settled clean
      exact ⟨os, fates, by rw [settled]⟩
    · intro spoiled
      rw [ends.escaped spoiled]
      rfl

/-- Output with one answer, whose length is that of more bytes than there can be. -/
def overflowing : Bytes :=
  [0x20, 1, 0x20, 1, 0x40, 2 ^ 256 - 1].flatMap Bytes.word

theorem decode_overflowing :
    Aggregate.decode overflowing = .error (.undecodable .tooLong) := by
  decide +kernel

/-- Such output is neither a list of answers nor refused by a fault of the format. -/
theorem exists_output_of_neither_kind :
    ∃ raw, ¬ ((∃ answers, Aggregate.decode raw = .ok answers) ∨
      Aggregate.decode raw = .error .empty ∨
      ∃ f, f.isDeclared = true ∧ Aggregate.decode raw = .error (.undecodable f)) := by
  refine ⟨overflowing, ?_⟩
  rw [decode_overflowing]
  rintro (⟨answers, h⟩ | h | ⟨f, declared, h⟩)
  · cases h
  · cases h
  · cases h
    cases declared

/-- A node that answers the first request as it should, and all others with such output. -/
def overflower : Node :=
  ⟨.ok .null, fun k _ => .answer (if k = 0 then Aggregate.response [⟨true, []⟩] else overflowing),
    fun _ _ _ => none⟩

open scoped Platform.Lenient

/-- The answer for the first call is lost with the second chunk. -/
theorem settles_unless_oversized_overflower :
    ((plain .pool).call overflower ([broken, broken].map .call) { batchSize := .int 2 }
      none).outcome = .raised (.fault (.decode .tooLong)) := by
  have started : (plain .pool).Started
      (({ batchSize := .int 2 } : CallOptions).within (plain .pool).settings)
      [broken, broken] [[.ofCall broken], [.ofCall broken]]
      ⟨some (.text Address.zero.text), false, .text "latest"⟩ (some 4) .never :=
    ⟨rfl, rfl, rfl, nofun, rfl, rfl, by decide, rfl, rfl⟩
  have ends : AllEnd (plain .pool) overflower [[.ofCall broken], [.ofCall broken]]
      ⟨some (.text Address.zero.text), false, .text "latest"⟩ (some 4) .never := by
    refine .inr fun k chunk hchunk => ⟨?_, nofun⟩
    match k, hchunk with
    | 0, _ => rfl
    | 1, _ => rfl
  obtain ⟨oversized, _, _, run⟩ := settles_unless_oversized overflowing 1 1 .hang .badIndex
    (plain .pool) overflower { batchSize := .int 2 } [broken, broken]
    [[.ofCall broken], [.ofCall broken]]
    ⟨some (.text Address.zero.text), false, .text "latest"⟩ (some 4) .never
  exact (run started ends).2
    ⟨1, _, overflowing, rfl, rfl, rfl, oversized.mpr decode_overflowing⟩

end Client

end EthBatch
