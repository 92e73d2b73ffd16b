import EthBatch.Proofs.Client.Progress
import EthBatch.Proofs.Client.Styles

/-!
# Every order of answers ends alike

A run without a deadline goes on when all of its chunks have outcomes. In whatever order slots are
handed out, requests sent and answers given, there are never more requests in flight than the limit
allows, each chunk is sent once, the waiting comes to its end, and every chunk then has its own
outcome in its own place. So the result of the run does not depend on the order.
-/

namespace EthBatch

namespace Client

variable {c : Client} {node : Node} {options : CallOptions} {calls : List Call}
variable {chunks : List (List SubCall)} {r : Route} {limit : Option Nat}

/-- The chunks of a run as they are run side by side. -/
def setting (c : Client) (node : Node) (r : Route) (chunks : List (List SubCall))
    (limit : Option Nat) (inTurn : Bool) (seconds : Option Value) : Schedule.Setting where
  style := c.style
  sizes := chunks.map List.length
  slots := limit
  result k := chunks[k]?.bind fun chunk =>
    settleReaction k chunk.length (c.reaction node r k chunk)
  inTurn := inTurn
  seconds := seconds

@[simp] theorem count_setting (inTurn : Bool) (seconds : Option Value) :
    (c.setting node r chunks limit inTurn seconds).count = chunks.length := List.length_map _

theorem result_setting (inTurn : Bool) (seconds : Option Value) {k : Nat} {chunk : List SubCall}
    (h : chunks[k]? = some chunk) : (c.setting node r chunks limit inTurn seconds).result k =
      settleReaction k chunk.length (c.reaction node r k chunk) := by
  simp [setting, h]

section Answered

variable (slots : limit ≠ some 0) (readable : node.IsReadable)
variable (answered : ∀ k chunk, chunks[k]? = some chunk → c.reaction node r k chunk ≠ .hang)

include answered in
/-- If every request is answered, none hangs. -/
theorem hanging_eq_zero (k : Nat) : c.hanging node r chunks k = 0 := by
  rw [hanging, List.countP_eq_zero]
  intro p hp
  rw [Reaction.isHang_iff]
  exact answered p.2 p.1 (List.mk_mem_zipIdx_iff_getElem?.mp (List.mem_of_mem_take hp))

include slots answered in
theorem isSent_of_answered (k : Nat) : c.isSent node r limit chunks .never k = true := by
  rw [isSent, hanging_eq_zero answered, Schedule.hasSlot_zero slots]
  rfl

include slots answered in
theorem requests_of_answered : Schedule.requests (c.entriesFor node r limit chunks .never) =
    chunks.zipIdx.map fun p => (p.2, c.requestFor r p.1) := by
  simp only [requests_entriesFor, isSent_of_answered slots answered, if_true]
  exact congrFun List.filterMap_eq_map _

include slots readable answered in
/-- Then the waiting comes to the fates of all chunks. -/
theorem exists_settled : ∃ os,
    await c.style .never none (c.entriesFor node r limit chunks .never) = .settled os := by
  rcases Schedule.await_cases c.style .never (c.entriesFor node r limit chunks .never) with
    settled | ⟨f, escaped⟩ | pending
  · exact settled
  · exact absurd (Schedule.mem_of_await_escaped escaped) (clean_of_isReadable readable f)
  · have ends : AllEnd c node chunks r limit .never :=
      .inr fun k chunk hchunk => ⟨isSent_of_answered slots answered k, answered k chunk hchunk⟩
    exact absurd pending ends.none_not_mem

end Answered

/-- No chunk of a run against a readable node has a fault. -/
theorem result_setting_ne_error (readable : node.IsReadable) (inTurn : Bool)
    (seconds : Option Value) (k : Nat) (f : Fault) :
    (c.setting node r chunks limit inTurn seconds).result k ≠ some (.error f) := by
  intro fault
  obtain ⟨chunk, _, escaped⟩ := Option.bind_eq_some_iff.mp fault
  exact settleReaction_ne_error readable r k chunk f escaped

variable {os : List ChunkOutcome}

/-- What the waiting comes to are the outcomes of the chunks by themselves. -/
theorem results_setting (inTurn : Bool) (seconds : Option Value)
    (settled : await c.style .never none (c.entriesFor node r limit chunks .never) = .settled os) :
    (List.range chunks.length).map (c.setting node r chunks limit inTurn seconds).result =
      Schedule.settled os := by
  have tasks := Schedule.tasks_of_await settled
  have length : os.length = chunks.length := (fates_of_await settled).1
  apply List.ext_getElem?
  intro k
  rw [List.getElem?_map]
  by_cases inside : k < chunks.length
  · have hchunk : chunks[k]? = some chunks[k] := List.getElem?_eq_getElem inside
    have task := getElem?_tasks_entriesFor c node r limit .never hchunk
    rw [tasks, Schedule.settled, List.getElem?_map,
      List.getElem?_eq_getElem (length ▸ inside)] at task
    have result := Option.some.inj task
    simp only [Schedule.task, Schedule.Entry.result] at result
    split at result
    · rw [List.getElem?_range inside, Option.map_some, result_setting _ _ hchunk, ← result,
        Schedule.settled, List.getElem?_map, List.getElem?_eq_getElem (length ▸ inside)]
      rfl
    · cases result
  · rw [List.getElem?_eq_none (by simpa using inside), Schedule.settled, List.getElem?_map,
      List.getElem?_eq_none (by omega)]
    rfl

/-- A run without a deadline, all of whose requests are answered in some order. However they are
answered, the requests in flight keep to the limit, each chunk is sent once, and the run goes on
with the outcomes of the chunks, each in its own place. These outcomes decide how the run ends. -/
theorem every_order_ends_alike [Platform] (c : Client) (node : Node) (options : CallOptions)
    (calls : List Call) (chunks : List (List SubCall)) (r : Route) (limit : Option Nat) (m : Int)
    (started : c.Started (options.within c.settings) calls chunks r limit .never)
    (whole : (options.within c.settings).maxConcurrentChunks = .int m)
    (readable : node.IsReadable)
    (answered : ∀ k chunk, chunks[k]? = some chunk → c.reaction node r k chunk ≠ .hang) :
    ∃ os, Fates c node chunks r limit .never os ∧
      (c.call node (calls.map .call) options none).outcome =
        conclude calls (chunks.map List.length) options.allowFailure.truthy (.settled os) ∧
      (c.call node (calls.map .call) options none).requests =
        chunks.zipIdx.map (fun p => (p.2, c.requestFor r p.1)) ∧
      ∀ (inTurn : Bool) (s : Schedule.Setting), s = c.setting node r chunks limit inTurn none →
        ∀ (es : List Schedule.Event) (d : Schedule.Course),
          Schedule.Course.Execution s .initial es d → .cancel ∉ es →
          (0 < m → (d.flying s).length ≤ m) ∧ d.sent.Nodup ∧ es.length ≤ 3 * chunks.length + 2 ∧
          (d.IsSettled s → d.flying s = [] ∧ d.sent.Perm (List.range chunks.length) ∧
            d.outcomes s = os.map fun o => some (.ok o)) ∧
          (∀ x, d.ending = some x → d.IsSettled s ∧
            conclude calls (chunks.map List.length) options.allowFailure.truthy x =
              (c.call node (calls.map .call) options none).outcome) ∧
          (d.ending = none → ∃ e, e ≠ .cancel ∧ d.Enabled s e) := by
  have slots : limit ≠ some 0 := limit_ne_zero started.limit
  obtain ⟨os, settled⟩ := exists_settled slots readable answered
  have outcome : (c.call node (calls.map .call) options none).outcome =
      conclude calls (chunks.map List.length) options.allowFailure.truthy (.settled os) := by
    rw [started.outcome_call, settled]
  refine ⟨os, fates_of_await settled, outcome, ?_, ?_⟩
  · rw [started.requests_call]
    exact requests_of_answered slots answered
  · rintro inTurn s rfl es d run never
    have results := results_setting inTurn none settled
    have size : (c.setting node r chunks limit inTurn none).count = chunks.length :=
      count_setting _ _
    have sound := run.sound (.initial _)
    have uncancelled := run.uncancelled never .initial
    have calm : d.Calm := run.calm (run.goes rfl never .initial) fun _ => rfl
    refine ⟨?_, sound.nodup_sent, ?_, ?_, ?_, ?_⟩
    · intro positive
      have limited := started.limit
      rw [whole, Schedule.limitOfValue_int, if_pos positive] at limited
      have := sound.length_flying_le (n := m.toNat) (Except.ok.inj limited).symm
      omega
    · have bound := run.length_add_left
      have rest := Schedule.Course.left_of_calm
        (s := c.setting node r chunks limit inTurn none) calm uncancelled.untold
      rw [Schedule.Course.left_initial, size] at bound
      omega
    · intro ended
      obtain ⟨flying, sent, places⟩ := sound.settled calm ended
      rw [size] at sent places
      exact ⟨flying, sent, places.trans results⟩
    · intro x ending
      rcases uncancelled.ending_cases sound ending with ⟨os', rfl, places⟩ | ⟨k, f, _, _, fault⟩
      · have ended := Schedule.Course.isSettled_of_outcomes places
        have own := (sound.settled calm ended).2.2
        rw [places, size, results] at own
        obtain rfl := Schedule.settled_inj.mp own
        exact ⟨ended, outcome.symm⟩
      · exact absurd fault (result_setting_ne_error readable inTurn none k f)
    · intro running
      by_cases done : d.IsDone (c.setting node r chunks limit inTurn none)
      · exact Schedule.Course.exists_end running uncancelled.untold (.inl done)
      · refine Schedule.Course.exists_move calm slots ?_ done
        intro k inside
        rw [size] at inside
        -- The result is there because the waiting of the whole run ended well.
        obtain ⟨o, _, same⟩ := Schedule.exists_of_settled results inside
        rw [same]
        rfl

/-- A node that refuses the first request and answers the others as it should. -/
def refusing : Node :=
  ⟨.ok .null, fun k _ => if k = 0 then .fault "down"
    else .answer (Aggregate.response [⟨true, [1]⟩]), fun _ _ _ => none⟩

theorem isReadable_refusing : refusing.IsReadable := by
  apply Node.IsReadable.of_response length_response_sound
  intro k r raw answer
  simp only [refusing] at answer
  split at answer
  · cases answer
  · exact (Reaction.answer.inj answer).symm

/-- Two chunks in one slot. -/
def pair : Schedule.Setting :=
  (plain .tasks).setting refusing ⟨some (.text Address.zero.text), false, .text "latest"⟩
    [[.ofCall broken], [.ofCall sound]] (some 1) false none

/-- The second chunk is run first. -/
def backwards : List Schedule.Event :=
  [.take 1, .send 1, .finish 1, .take 0, .send 0, .finish 0, .gather, .emerge]

open scoped Platform.Lenient

/-- Both chunks are sent, and the run goes on with what it comes to. -/
theorem every_order_ends_alike_backwards :
    (Schedule.Course.initial.after pair backwards).sent.Perm [0, 1] ∧
      ∃ x, (Schedule.Course.initial.after pair backwards).ending = some x ∧
        conclude [broken, sound] [1, 1] true x =
          ((plain .tasks).call refusing ([broken, sound].map .call)
            { batchSize := .int 2, maxConcurrentChunks := .int 1 } none).outcome := by
  have started : (plain .tasks).Started
      (({ batchSize := .int 2, maxConcurrentChunks := .int 1 } : CallOptions).within
        (plain .tasks).settings) [broken, sound] [[.ofCall broken], [.ofCall sound]]
      ⟨some (.text Address.zero.text), false, .text "latest"⟩ (some 1) .never :=
    ⟨rfl, rfl, rfl, List.cons_ne_nil _ _, rfl, rfl, by decide, rfl, rfl⟩
  have answered (k : Nat) (chunk : List SubCall) (_ : [[SubCall.ofCall broken],
      [.ofCall sound]][k]? = some chunk) : (plain .tasks).reaction refusing
        ⟨some (.text Address.zero.text), false, .text "latest"⟩ k chunk ≠ .hang := by
    intro hangs
    simp only [reaction, refusing] at hangs
    split at hangs
    · cases hangs
    · cases hangs
  obtain ⟨os, _, _, _, orders⟩ := every_order_ends_alike (plain .tasks) refusing
    { batchSize := .int 2, maxConcurrentChunks := .int 1 } [broken, sound] _ _ _ 1 started rfl
    isReadable_refusing answered
  have run : Schedule.Course.Execution pair .initial backwards
      (Schedule.Course.initial.after pair backwards) :=
    Schedule.Course.Possible.execution (by decide)
  obtain ⟨_, _, _, _, ends, _⟩ := orders false pair rfl _ _ run (by decide)
  exact ⟨by decide, _, rfl, (ends _ rfl).2⟩

end Client

end EthBatch
