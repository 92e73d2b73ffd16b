import EthBatch.Proofs.Client.Barrier
import EthBatch.Proofs.Client.Standstill

/-!
# The deadline settles every chunk

Requests that hang keep their slots, so with a limit some chunks may never be sent. Which ones does
not depend on the order of the answers: a chunk is sent if and only if the chunks before it that
hang leave it a slot. When the deadline passes after all that can be answered is answered, the
chunks that hang or were not sent have timed out, and all others have their own outcomes. Whatever
is answered afterwards comes too late.

For a pool this needs nothing else. The timers of tasks go off one by one, and a task that unwinds
gives its slot back. If another one takes the slot before its own timer goes off, its request is
sent, too. So for tasks it is asked that no slot is taken before all timers have gone off. And both
styles must have come as far as they can before the deadline: a chunk that is about to send its
request, or has not come to ask for its slot, is sent or not as it happens.
-/

namespace EthBatch

namespace Schedule

/-- Is a chunk sent when so many chunks before it hang? Zero and less lift the limit. -/
def IsServed (limit : Int) (hanging : Nat) : Prop := limit ≤ 0 ∨ (hanging : Int) < limit

instance (limit : Int) (hanging : Nat) : Decidable (IsServed limit hanging) :=
  inferInstanceAs (Decidable (limit ≤ 0 ∨ (hanging : Int) < limit))

theorem hasSlot_iff {style : Style} {limit : Option Nat} {m : Int}
    (limited : limitOfValue style (.int m) = .ok limit) (hanging : Nat) :
    hasSlot limit hanging = true ↔ IsServed m hanging := by
  rw [limitOfValue_int] at limited
  obtain rfl := Except.ok.inj limited
  unfold IsServed
  by_cases positive : 0 < m
  · rw [if_pos positive]
    simp only [hasSlot, decide_eq_true_eq]
    omega
  · rw [if_neg positive]
    simp only [hasSlot, true_iff]
    omega

end Schedule

namespace Client

open Schedule (Course)

/-- A chunk has timed out if it was not sent or its request hangs, and only then. -/
theorem Fate.eq_timeout_iff {seconds : Value} {index size : Nat} {isSent : Bool} {x : Reaction}
    {o : ChunkOutcome} (h : Fate (some seconds) index size isSent x o) :
    o = .error (located index size (.timeout seconds)) ↔ isSent = false ∨ x = .hang := by
  cases h with
  | timedOut deadline late =>
      obtain rfl := Option.some.inj deadline
      simp [late]
  | refused sent h => simp [sent, h, located]
  | empty sent h => simp [sent, h, located]
  | undecodable sent h => simp [sent, h, located]
  | miscounted sent h => simp [sent, h, located]
  | answered sent h => simp [sent, h]

variable {c : Client} {node : Node} {chunks : List (List SubCall)} {r : Route}
variable {limit : Option Nat} {inTurn : Bool} {seconds : Value}

/-- Something becomes of every request that a readable node does not leave hanging. -/
theorem exists_settleReaction (readable : node.IsReadable) {k : Nat} {chunk : List SubCall}
    (answered : c.reaction node r k chunk ≠ .hang) :
    ∃ o, settleReaction k chunk.length (c.reaction node r k chunk) = some (.ok o) := by
  match settled : settleReaction k chunk.length (c.reaction node r k chunk) with
  | none => exact absurd (settleReaction_eq_none.mp settled) answered
  | some (.ok o) => exact ⟨o, rfl⟩
  | some (.error f) => exact absurd settled (settleReaction_ne_error readable r k chunk f)

/-- A chunk that is sent to a readable node and does not hang keeps what comes of it. -/
theorem Fate.settleReaction_eq (readable : node.IsReadable) {k : Nat} {chunk : List SubCall}
    {isSent : Bool} {o : ChunkOutcome}
    (fate : Fate (some seconds) k chunk.length isSent (c.reaction node r k chunk) o)
    (answered : c.reaction node r k chunk ≠ .hang) (sent : isSent = true) :
    settleReaction k chunk.length (c.reaction node r k chunk) = some (.ok o) := by
  obtain ⟨o', own⟩ := exists_settleReaction readable answered
  subst sent
  have same : Fate (some seconds) k chunk.length true (c.reaction node r k chunk) o' :=
    fate_of_settleReaction own
  rw [own, fate.unique same]

/-- For a readable node, nothing comes of the requests that hang, and of no others. -/
theorem isNone_result_setting (readable : node.IsReadable) (timed : Option Value) {k : Nat}
    {chunk : List SubCall} (h : chunks[k]? = some chunk) :
    ((c.setting node r chunks limit inTurn timed).result k).isNone =
      (c.reaction node r k chunk).isHang := by
  rw [result_setting _ _ h]
  by_cases hangs : c.reaction node r k chunk = .hang
  · rw [settleReaction_eq_none.mpr hangs, hangs]
    rfl
  · obtain ⟨o, settled⟩ := exists_settleReaction readable hangs
    have answered : (c.reaction node r k chunk).isHang = false := by
      rwa [← Bool.not_eq_true, Reaction.isHang_iff]
    rw [settled, answered]
    rfl

/-- Both ways of counting the requests that hang come to the same. -/
theorem hanging_setting (readable : node.IsReadable) (timed : Option Value) {k : Nat}
    (inside : k ≤ chunks.length) :
    (c.setting node r chunks limit inTurn timed).hanging k = c.hanging node r chunks k := by
  have places : List.range k = (chunks.zipIdx.take k).map Prod.snd := by
    rw [List.map_take, List.zipIdx_map_snd, List.range'_eq_map_range, ← List.map_take,
      List.take_range, Nat.min_eq_left inside]
    simp
  rw [Schedule.Setting.hanging, ← List.countP_eq_length_filter, places, List.countP_map, hanging]
  apply List.countP_congr
  intro p mem
  have hchunk := List.mem_zipIdx_iff_getElem?.mp (List.mem_of_mem_take mem)
  rw [Function.comp_apply, isNone_result_setting readable _ hchunk]

/-- A chunk is left a slot if it is served. -/
theorem leavesSlot_setting (readable : node.IsReadable) (timed : Option Value) {m : Int}
    (limited : Schedule.limitOfValue c.style (.int m) = .ok limit) {k : Nat}
    (inside : k ≤ chunks.length) :
    (c.setting node r chunks limit inTurn timed).leavesSlot k = true ↔
      Schedule.IsServed m (c.hanging node r chunks k) := by
  rw [Schedule.Setting.leavesSlot, hanging_setting readable timed inside]
  exact Schedule.hasSlot_iff limited _

/-- What is noted of a chunk whose deadline has passed. -/
theorem timedOut_setting {k : Nat} {chunk : List SubCall} (h : chunks[k]? = some chunk) :
    (c.setting node r chunks limit inTurn (some seconds)).timedOut k =
      some (.ok (.error (located k chunk.length (.timeout seconds)))) := by
  simp [Schedule.Setting.timedOut, Schedule.Setting.late, setting, h]

/-- Every chunk of a run against a readable node comes to an outcome in the end. -/
theorem exists_finals (readable : node.IsReadable) : ∃ os,
    (List.range chunks.length).map
      (c.setting node r chunks limit inTurn (some seconds)).final = Schedule.settled os := by
  have all (k : Nat) : ∃ o,
      (c.setting node r chunks limit inTurn (some seconds)).final k = some (.ok o) := by
    unfold Schedule.Setting.final
    cases own : (c.setting node r chunks limit inTurn (some seconds)).own k with
    | none => exact ⟨_, rfl⟩
    | some x =>
        cases x with
        | ok o => exact ⟨o, rfl⟩
        | error f =>
            unfold Schedule.Setting.own at own
            split at own
            · exact absurd own (result_setting_ne_error readable inTurn _ k f)
            · cases own
  choose o final using all
  refine ⟨(List.range chunks.length).map o, ?_⟩
  rw [Schedule.settled, List.map_map]
  exact List.map_congr_left fun k _ => final k

/-- This is what a run waits for, if the clock has no say. -/
theorem tasks_ahead (readable : node.IsReadable)
    (prompt : (Schedule.Deadline.ahead seconds).Undecided c.style node.clock) :
    Schedule.tasks (.ahead seconds) (c.entriesFor node r limit chunks (.ahead seconds)) =
      (List.range chunks.length).map
        (c.setting node r chunks limit inTurn (some seconds)).final := by
  apply List.ext_getElem?
  intro k
  by_cases inside : k < chunks.length
  · have hchunk : chunks[k]? = some chunks[k] := List.getElem?_eq_getElem inside
    rw [getElem?_tasks_entriesFor c node r limit _ hchunk, List.getElem?_map,
      List.getElem?_range inside, Option.map_some, isSent, prompt k, Schedule.Setting.final,
      timedOut_setting hchunk, Schedule.Setting.own, Schedule.Setting.leavesSlot,
      hanging_setting readable _ (Nat.le_of_lt inside), result_setting _ _ hchunk]
    simp only [Schedule.task, Schedule.Entry.result, Schedule.timedOut, Option.getD_none]
    show some (some _) = some (Option.or (if Schedule.hasSlot limit _ then _ else _) _)
    cases Schedule.hasSlot limit (c.hanging node r chunks k) with
    | false => rfl
    | true =>
        simp only [if_true]
        cases settleReaction k chunks[k].length (c.reaction node r k chunks[k]) <;> rfl
  · simp [Schedule.tasks, inside]

/-- What a chunk comes to in the end is its fate. -/
theorem fate_of_final (readable : node.IsReadable) {k : Nat} {chunk : List SubCall}
    (h : chunks[k]? = some chunk) {o : ChunkOutcome}
    (final : (c.setting node r chunks limit inTurn (some seconds)).final k = some (.ok o)) :
    Fate (some seconds) k chunk.length (Schedule.hasSlot limit (c.hanging node r chunks k))
      (c.reaction node r k chunk) o := by
  have inside : k < chunks.length := (List.getElem?_eq_some_iff.mp h).1
  rw [Schedule.Setting.final, timedOut_setting h, Schedule.Setting.own,
    Schedule.Setting.leavesSlot, hanging_setting readable _ (Nat.le_of_lt inside),
    result_setting _ _ h] at final
  change Option.or (if Schedule.hasSlot limit _ then _ else _) _ = _ at final
  cases slot : Schedule.hasSlot limit (c.hanging node r chunks k) with
  | false =>
      rw [slot] at final
      cases final
      exact .timedOut rfl (.inl rfl)
  | true =>
      rw [slot, if_pos rfl] at final
      cases settled : settleReaction k chunk.length (c.reaction node r k chunk) with
      | none =>
          rw [settled] at final
          cases final
          exact .timedOut rfl (.inr (settleReaction_eq_none.mp settled))
      | some x =>
          rw [settled, Option.some_or] at final
          exact fate_of_settleReaction (settled.trans final)

variable {options : CallOptions} {calls : List Call} {m : Int}

/-- The requests of a run with a deadline ahead are those of the chunks that are left a slot, if the
clock has no say. -/
theorem requests_ahead [Platform]
    (started : c.Started (options.within c.settings) calls chunks r limit (.ahead seconds))
    (whole : (options.within c.settings).maxConcurrentChunks = .int m)
    (prompt : (Schedule.Deadline.ahead seconds).Undecided c.style node.clock) :
    (c.call node (calls.map .call) options none).requests = chunks.zipIdx.filterMap fun p =>
      if Schedule.IsServed m (c.hanging node r chunks p.2) then
        some (p.2, c.requestFor r p.1) else none := by
  have limited := whole ▸ started.limit
  rw [started.requests_call, requests_entriesFor]
  simp only [isSent, prompt _, Option.getD_none, Schedule.hasSlot_iff limited]

/-- A run with a deadline ahead, to a readable node, with slots handed out in the order of the
chunks, that comes as far as it can before the deadline. Whatever order the requests and answers
come in, a chunk is sent if and only if the chunks before it that hang leave it a slot, provided
that no task takes a slot before the timers of all have gone off. A chunk has timed out if it hangs
or was not sent, and keeps its own outcome otherwise. After the run has gone on, no chunk starts and
no outcome changes, even if the requests that hang are answered then. -/
theorem deadline_settles_all [Platform] (c : Client) (node : Node) (options : CallOptions)
    (calls : List Call) (chunks : List (List SubCall)) (r : Route) (limit : Option Nat) (m : Int)
    (seconds : Value)
    (started : c.Started (options.within c.settings) calls chunks r limit (.ahead seconds))
    (whole : (options.within c.settings).maxConcurrentChunks = .int m)
    (readable : node.IsReadable) :
    ∃ os : List ChunkOutcome,
      os.length = chunks.length ∧
      (∀ k chunk o, chunks[k]? = some chunk → os[k]? = some o →
        (o = .error (located k chunk.length (.timeout seconds)) ↔
          c.reaction node r k chunk = .hang ∨
            ¬ Schedule.IsServed m (c.hanging node r chunks k)) ∧
        (c.reaction node r k chunk ≠ .hang → Schedule.IsServed m (c.hanging node r chunks k) →
          settleReaction k chunk.length (c.reaction node r k chunk) = some (.ok o))) ∧
      ((Schedule.Deadline.ahead seconds).Undecided c.style node.clock →
        (c.call node (calls.map .call) options none).outcome =
          conclude calls (chunks.map List.length) options.allowFailure.truthy (.settled os) ∧
        (c.call node (calls.map .call) options none).requests = chunks.zipIdx.filterMap (fun p =>
          if Schedule.IsServed m (c.hanging node r chunks p.2) then
            some (p.2, c.requestFor r p.1) else none)) ∧
      ∀ s : Schedule.Setting, s = c.setting node r chunks limit true (some seconds) →
        (∀ d : Course, ∃ es d', Course.Execution s d es d' ∧ (∀ e ∈ es, e.isMove = true) ∧
          d'.IsQuiet s) ∧
        ∀ (early timers rest : List Schedule.Event) (d d' g : Course),
          Course.Elapses s early timers rest d d' g →
          (∀ k < chunks.length, k ∈ g.sent ↔
            Schedule.IsServed m (c.hanging node r chunks k)) ∧
          (early ++ timers ++ rest).length ≤ 5 * chunks.length + 3 ∧
          (g.ending = none → ∃ e, e ≠ .cancel ∧ g.Enabled s e) ∧
          ∀ x, g.ending = some x → x = .settled os ∧
            g.outcomes s = os.map (fun o => some (.ok o)) ∧
            ∀ (answers : Nat → Option (Except Fault ChunkOutcome))
              (later : List Schedule.Event) (g' : Course),
              Course.Execution { s with result := answers } g later g' →
              (∀ k, .take k ∉ later ∧ .send k ∉ later) ∧ g'.sent = g.sent ∧
                g'.ending = g.ending ∧ g'.outcomes s = g.outcomes s := by
  have limited := whole ▸ started.limit
  obtain ⟨os, finals⟩ : ∃ os, (List.range chunks.length).map
      (c.setting node r chunks limit true (some seconds)).final = Schedule.settled os :=
    exists_finals readable
  refine ⟨os, Schedule.length_of_settled finals, ?_, ?_, ?_⟩
  · intro k chunk o hchunk ho
    have inside : k < chunks.length := (List.getElem?_eq_some_iff.mp hchunk).1
    obtain ⟨_, here, final⟩ := Schedule.exists_of_settled finals inside
    obtain rfl := Option.some.inj (ho.symm.trans here)
    have fate := fate_of_final readable hchunk final
    have served := Schedule.hasSlot_iff limited (c.hanging node r chunks k)
    constructor
    · rw [fate.eq_timeout_iff, ← served, Bool.not_eq_true, or_comm]
    · intro answered sent
      exact fate.settleReaction_eq readable answered (served.mpr sent)
  · intro prompt
    refine ⟨?_, requests_ahead started whole prompt⟩
    have settled : await c.style (.ahead seconds) none
        (c.entriesFor node r limit chunks (.ahead seconds)) = .settled os := by
      rw [Schedule.await_eq_settled, tasks_ahead readable prompt, finals]
    rw [started.outcome_call, settled]
  · rintro s rfl
    refine ⟨Course.exists_quiet _, ?_⟩
    intro early timers rest d d' g elapses
    have size : (c.setting node r chunks limit true (some seconds)).count = chunks.length :=
      count_setting _ _
    have sound := elapses.run.sound (.initial _)
    have uncancelled := elapses.isUncancelled
    obtain ⟨still, sent⟩ := elapses.still_and_sent rfl
    refine ⟨?_, ?_, fun running => sound.exists_next running (.inl rfl), ?_⟩
    · intro k inside
      rw [sent k (size.symm ▸ inside)]
      exact leavesSlot_setting readable _ limited (Nat.le_of_lt inside)
    · have bound := elapses.run.length_add_left
      rw [Course.left_initial, size] at bound
      omega
    · intro x ending
      rcases uncancelled.ending_cases sound ending with ⟨os', rfl, places⟩ | ⟨k, f, _, _, fault⟩
      · have settled := Course.isSettled_of_outcomes places
        have own := still.outcomes_eq settled
        rw [places, size, finals] at own
        obtain rfl := Schedule.settled_inj.mp own
        refine ⟨rfl, places, ?_⟩
        intro answers later g' run
        have closed := sound.closed uncancelled ending settled still.not_holding
        obtain ⟨gone, idle, sent, outcomes⟩ := run.closed
          (s := { c.setting node r chunks limit true (some seconds) with result := answers })
          ⟨closed.ending, closed.noted, closed.launched⟩
        exact ⟨idle, sent, gone.ending.trans ending.symm, outcomes⟩
      · exact absurd fault (result_setting_ne_error readable true _ k f)

/-- Three chunks in one slot. The second one hangs. -/
def starving (style : Style) : Schedule.Setting :=
  (plain style).setting mixed ⟨some (.text Address.zero.text), false, .text "latest"⟩
    [[.ofCall sound], [.ofCall sound], [.ofCall sound]] (some 1) true (some (.int 5))

/-- All that can happen before the deadline. -/
def meanwhile : List Schedule.Event := [.take 0, .send 0, .finish 0, .take 1, .send 1]

/-- The timers of both chunks that have not ended go off. -/
def lapses : List Schedule.Event := [.lapse 1, .lapse 2]

/-- The call goes on. -/
def leaving : List Schedule.Event := [.unwind 1, .unwind 2, .gather, .emerge]

/-- The call before its deadline. -/
def awaiting : Course := Course.initial.after (starving .tasks) meanwhile

/-- The call when the timers have gone off. -/
def expired : Course := awaiting.after (starving .tasks) lapses

/-- The call when it has gone on. -/
def departed : Course := expired.after (starving .tasks) leaving

theorem elapses_starving :
    Course.Elapses (starving .tasks) meanwhile lapses leaving awaiting expired departed where
  before := Course.Possible.execution (by decide)
  moves := by decide
  quiet := by decide
  during := Course.Possible.execution (by decide)
  untaken _ := ⟨by simp [lapses], by decide⟩
  after := Course.Possible.execution (by decide)
  uncancelled := by decide

open scoped Platform.Lenient

/-- The first chunk was refused and keeps that outcome, the others have timed out. -/
theorem deadline_settles_all_starved : departed.ending = some (.settled
    [.error (located 0 1 (.request "down")), .error (located 1 1 (.timeout (.int 5))),
      .error (located 2 1 (.timeout (.int 5)))]) := by
  have started : (plain .tasks).Started
      (({ batchSize := .int 2, maxConcurrentChunks := .int 1, timeout := .int 5 } :
        CallOptions).within (plain .tasks).settings) [sound, sound, sound]
      [[.ofCall sound], [.ofCall sound], [.ofCall sound]]
      ⟨some (.text Address.zero.text), false, .text "latest"⟩ (some 1) (.ahead (.int 5)) :=
    ⟨rfl, rfl, rfl, nofun, rfl, rfl, by decide, rfl,
      Schedule.Deadline.ofValue_int (by decide +kernel)⟩
  obtain ⟨os, length, fates, _, orders⟩ := deadline_settles_all (plain .tasks) mixed
    { batchSize := .int 2, maxConcurrentChunks := .int 1, timeout := .int 5 }
    [sound, sound, sound] _ _ _ 1 (.int 5) started rfl isReadable_mixed
  obtain ⟨_, _, _, ends⟩ := (orders _ rfl).2 _ _ _ _ _ _ elapses_starving
  have ending := (ends _ rfl).1
  obtain ⟨a, b, d, rfl⟩ := List.length_eq_three.mp length
  have first := (fates 0 _ a rfl rfl).2 nofun (by decide)
  have second := (fates 1 _ b rfl rfl).1.mpr (.inl rfl)
  have third := (fates 2 _ d rfl rfl).1.mpr (.inr (by decide))
  cases first
  rw [second, third] at ending
  exact congrArg some ending

/-- Requests are sent out of turn if the deadline comes at an odd moment. A task takes the slot that
another one gives back before its own timer goes off. If the timers go off at the start, nothing is
sent. A thread of a pool sends the request that it was making when the call went on. -/
theorem exists_request_out_of_turn :
    (∃ es d, Course.Execution (starving .tasks) .initial es d ∧ .cancel ∉ es ∧
      2 ∈ d.sent ∧ (starving .tasks).leavesSlot 2 = false) ∧
    (∃ es d, Course.Execution (starving .tasks) .initial es d ∧ .cancel ∉ es ∧
      d.ending.isSome = true ∧ 0 ∉ d.sent ∧ (starving .tasks).leavesSlot 0 = true ∧
      ((starving .tasks).result 0).isSome = true) ∧
    ∃ es d e, Course.Execution (starving .pool) .initial es d ∧
      d.ending.isSome = true ∧ Course.Execution (starving .pool) d [.send 0] e := by
  refine ⟨⟨meanwhile ++ [.lapse 1, .unwind 1, .take 2, .send 2], _,
      Course.Possible.execution (by decide), by decide, by decide, by decide⟩,
    ⟨[.lapse 0, .lapse 1, .lapse 2, .unwind 0, .unwind 1, .unwind 2, .gather, .emerge], _,
      Course.Possible.execution (by decide), by decide, by decide, by decide, by decide,
      by decide⟩,
    ⟨[.take 0, .look, .unwind 1, .unwind 2, .gather, .emerge], _, _,
      Course.Possible.execution (by decide), by decide,
      Course.Possible.execution (by decide)⟩⟩

end Client

end EthBatch
