import EthBatch.Proofs.Client.Barrier

/-!
# Every execution is a run

Whatever a call that nobody cancels comes to while its chunks run side by side, in whatever order
and at whatever speed, a run comes to it as well: with a clock that says which requests were sent in
time, and with a node that leaves those requests without an answer whose answers came too late.
-/

namespace EthBatch

namespace Client

open Schedule (Course)

variable {c : Client} {node : Node} {calls : List Call} {options : CallOptions}
variable {chunks : List (List SubCall)} {r : Route} {limit : Option Nat}
variable {deadline : Schedule.Deadline} {inTurn : Bool}

/-- Did a chunk end with what came of its own request? -/
def Keeps (s : Schedule.Setting) (d : Course) (k : Nat) : Prop :=
  k ∈ d.sent ∧ (d.jobs k).outcome = s.result k

open scoped Classical in
/-- A node with the clock of an execution. It leaves the requests without an answer of which nothing
came there. -/
noncomputable def timed (node : Node) (s : Schedule.Setting) (d : Course) : Node where
  chain := node.chain
  react k q := if Keeps s d k then node.react k q else .hang
  clock _ _ k := some (decide (k ∈ d.sent))

theorem react_timed (node : Node) (s : Schedule.Setting) (d : Course) (k : Nat) (q : Request) :
    (timed node s d).react k q = node.react k q ∨ (timed node s d).react k q = .hang := by
  classical
  exact ite_eq_or_eq (Keeps s d k) _ _

theorem reaction_timed_of_keeps {s : Schedule.Setting} {d : Course} {k : Nat}
    (keeps : Keeps s d k) (chunk : List SubCall) :
    c.reaction (timed node s d) r k chunk = c.reaction node r k chunk := if_pos keeps

theorem reaction_timed_of_not_keeps {s : Schedule.Setting} {d : Course} {k : Nat}
    (loses : ¬ Keeps s d k) (chunk : List SubCall) :
    c.reaction (timed node s d) r k chunk = .hang := if_neg loses

section Settled

variable {s : Schedule.Setting} (setting : s = c.setting node r chunks limit inTurn
  deadline.seconds?) {d : Course} (sound : d.Sound s) {os : List ChunkOutcome}
variable (settled : d.outcomes s = Schedule.settled os)

include setting sound settled in
/-- A chunk that does not keep its own outcome has timed out. -/
theorem keeps_or_timedOut {k : Nat} {chunk : List SubCall} (h : chunks[k]? = some chunk) :
    ∃ o, os[k]? = some o ∧
      ((Keeps s d k ∧ settleReaction k chunk.length (c.reaction node r k chunk) = some (.ok o)) ∨
      (¬ Keeps s d k ∧ ∃ seconds, deadline.seconds? = some seconds ∧
        o = .error (located k chunk.length (.timeout seconds)))) := by
  have inside : k < s.count := by
    rw [setting, count_setting]
    exact (List.getElem?_eq_some_iff.mp h).1
  obtain ⟨o, ho, noted⟩ := Schedule.exists_of_settled settled inside
  have result : s.result k = settleReaction k chunk.length (c.reaction node r k chunk) := by
    rw [setting, result_setting _ _ h]
  refine ⟨o, ho, ?_⟩
  by_cases keeps : Keeps s d k
  · exact .inl ⟨keeps, by rw [← result, ← keeps.2, noted]⟩
  · refine .inr ⟨keeps, ?_⟩
    rcases (sound.jobs k).outcome _ noted with ⟨_, once, own⟩ | ⟨_, late, _⟩
    · have sent : k ∈ d.sent := List.one_le_count_iff.mp (Nat.le_of_eq once.symm)
      exact absurd ⟨sent, noted.trans own.symm⟩ keeps
    · obtain ⟨seconds, timed, same⟩ := Option.map_eq_some_iff.mp late
      rw [setting] at timed same
      refine ⟨seconds, timed, ?_⟩
      rw [← Except.ok.inj same, Schedule.Setting.late]
      simp [Client.setting, h]

include setting sound settled in
/-- With the clock of the execution, a run sends just its requests. -/
theorem isSent_timed (onTime : deadline.isOver = false) (slots : limit ≠ some 0) {k : Nat}
    {chunk : List SubCall} (h : chunks[k]? = some chunk) :
    c.isSent (timed node s d) r limit chunks deadline k = decide (k ∈ d.sent) := by
  cases deadline with
  | passed seconds => cases onTime
  | ahead seconds => rfl
  | never =>
      have keeps {k : Nat} {chunk : List SubCall} (h : chunks[k]? = some chunk) : Keeps s d k ∧
          c.reaction node r k chunk ≠ .hang := by
        obtain ⟨o, _, ⟨keeps, own⟩ | ⟨_, _, never, _⟩⟩ :=
          keeps_or_timedOut setting sound settled h
        · exact ⟨keeps, fun hangs => nomatch (settleReaction_eq_none.mpr hangs) ▸ own⟩
        · cases never
      have answered (k : Nat) (chunk : List SubCall) (h : chunks[k]? = some chunk) :
          c.reaction (timed node s d) r k chunk ≠ .hang := by
        rw [reaction_timed_of_keeps (keeps h).1]
        exact (keeps h).2
      rw [isSent_of_answered slots answered, decide_eq_true (keeps h).1.1]

include setting sound settled in
/-- With the clock of the execution, a run waits for just its outcomes. -/
theorem await_timed (onTime : deadline.isOver = false) (slots : limit ≠ some 0) :
    await c.style deadline none (c.entriesFor (timed node s d) r limit chunks deadline) =
      .settled os := by
  rw [Schedule.await_eq_settled]
  have length : os.length = chunks.length := by
    rw [Schedule.length_of_settled settled, setting, count_setting]
  apply List.ext_getElem?
  intro k
  cases hchunk : chunks[k]? with
  | none =>
      have outside := List.getElem?_eq_none_iff.mp hchunk
      rw [List.getElem?_eq_none (by simpa [Schedule.tasks] using outside),
        List.getElem?_eq_none (by simpa [Schedule.settled, length] using outside)]
  | some chunk =>
      obtain ⟨o, ho, fate⟩ := keeps_or_timedOut setting sound settled hchunk
      rw [getElem?_tasks_entriesFor c _ r limit deadline hchunk, Schedule.settled,
        List.getElem?_map, ho, Option.map_some]
      apply congrArg some
      rcases fate with ⟨keeps, own⟩ | ⟨loses, seconds, timely, rfl⟩
      · have sent := isSent_timed setting sound settled onTime slots hchunk
        rw [decide_eq_true keeps.1] at sent
        rw [reaction_timed_of_keeps keeps]
        exact task_of_isSent (isSent_of_isOver c _ r limit chunks · k) sent own
      · rw [reaction_timed_of_not_keeps loses]
        -- Nothing comes of the chunk itself, so it is left to the deadline.
        cases deadline with
        | never => cases timely
        | passed seconds => cases onTime
        | ahead seconds =>
            obtain rfl := Option.some.inj timely
            cases c.isSent (timed node s d) r limit chunks (.ahead seconds) k <;> rfl

end Settled

/-- Every execution that nobody cancels is a run: with another clock, and with a node that leaves
some requests without an answer, the run ends as the call does and sends the requests that are
sent. -/
theorem exists_run_of_execution [Platform] (readable : node.IsReadable)
    (started : c.Started (options.within c.settings) calls chunks r limit deadline)
    (onTime : deadline.isOver = false) (slots : limit ≠ some 0) {inTurn : Bool}
    {es : List Schedule.Event} {d : Course} {x : Schedule.Ending}
    (run : Course.Execution (c.setting node r chunks limit inTurn deadline.seconds?)
      .initial es d) (uncancelled : .cancel ∉ es) (ending : d.ending = some x) :
    ∃ node' : Node, (∀ k q, node'.react k q = node.react k q ∨ node'.react k q = .hang) ∧
      (c.call node' (calls.map .call) options none).outcome =
        conclude calls (chunks.map List.length) options.allowFailure.truthy x ∧
      ∀ k q, (k, q) ∈ (c.call node' (calls.map .call) options none).requests ↔
        ∃ chunk, chunks[k]? = some chunk ∧ k ∈ d.sent ∧ q = c.requestFor r chunk := by
  have sound := run.sound (.initial _)
  rcases (run.uncancelled uncancelled .initial).ending_cases sound ending with
    ⟨os, rfl, settled⟩ | ⟨k, f, _, _, fault⟩
  · refine ⟨timed node (c.setting node r chunks limit inTurn deadline.seconds?) d,
      react_timed _ _ _, ?_, ?_⟩
    · rw [started.outcome_call, await_timed rfl sound settled onTime slots]
    · intro k q
      rw [started.requests_call, mem_requests_entriesFor]
      refine exists_congr fun chunk => and_congr_right fun h => ?_
      rw [isSent_timed rfl sound settled onTime slots h, decide_eq_true_iff]
  · exact absurd fault (result_setting_ne_error readable inTurn _ k f)

end Client

end EthBatch
