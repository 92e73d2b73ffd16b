import EthBatch.Proofs.Client.Barrier

/-!
# A cancellation ends the call

However the chunks of a run of tasks stand when it is cancelled, it does not return: it ends with
the cancellation, unless an answer has a fault that nobody catches. A chunk that the cancellation
has reached sends nothing any more. Without a deadline it reaches all of them at once. With one, it
reaches a chunk when the task that watches its timer is resumed, and all of them before the run
ends. A request that is still in flight at the end has been cancelled as well; the run does not wait
for it to unwind.
-/

namespace EthBatch

namespace Schedule

theorem Job.isStruck_strike (j : Job) : j.strike.IsStruck := by
  unfold strike
  split
  · next ended => exact .inl ended
  · exact .inr rfl

/-- A chunk that a cancellation has reached only unwinds: nothing is sent or noted any more. -/
theorem Turn.struck {s : Setting} {e : Event} {i n n' : Nat} {j j' : Job}
    (turn : Turn s i e n j n' j') (tasks : s.style = .tasks) (struck : j.IsStruck) :
    j'.IsStruck ∧ n' = n ∧ j'.outcome = j.outcome := by
  rcases struck with ended | cancelled
  · obtain ⟨rfl, rfl⟩ := turn.eq_of_ended ended
    exact ⟨.inl ended, rfl, rfl⟩
  · have stays {p : Prop} (goesOn : s.GoesOn j) : p := by
      rcases goesOn with unstopped | pool
      · simp [cancelled] at unstopped
      · simp [tasks] at pool
    have closed {p : Prop} (unended : j.IsOpen) : p := by simp [cancelled, Job.IsOpen] at unended
    cases turn with
    | rest => exact ⟨.inr cancelled, rfl, rfl⟩
    | take event inside waits goesOn => exact stays goesOn
    | send event holds goesOn => exact stays goesOn
    | finish event flies goesOn answered => exact stays goesOn
    | halt event pool timed unended => exact closed unended
    | lapse event tasks timed unended => exact closed unended
    | unwind event inside stopped unended queued =>
        exact ⟨.inl rfl, rfl, by simp [Job.unwind, cancelled]⟩
    | strike event tasks unended => exact ⟨.inr rfl, rfl, rfl⟩

namespace Course

variable {s : Setting} {c d : Course} {e : Event} {es es' : List Event} {i : Nat}

/-- A chunk that a cancellation has reached takes no slot and sends no request. -/
theorem not_enabled_of_struck (tasks : s.style = .tasks) (struck : (c.jobs i).IsStruck) :
    ¬ c.Enabled s (.take i) ∧ ¬ c.Enabled s (.send i) := by
  have stays (goesOn : s.GoesOn (c.jobs i)) : (c.jobs i).phase = .ended := by
    rcases struck with ended | cancelled
    · exact ended
    · rcases goesOn with unstopped | pool
      · simp [cancelled] at unstopped
      · simp [tasks] at pool
  constructor
  · rintro ⟨_, waits, goesOn, _⟩
    rw [stays goesOn] at waits
    cases waits
  · rintro ⟨_, holds, goesOn⟩
    rw [stays goesOn] at holds
    cases holds

/-- From then on it sends nothing. -/
theorem Execution.unsent (run : Execution s c es d) (tasks : s.style = .tasks)
    (struck : (c.jobs i).IsStruck) :
    (d.jobs i).IsStruck ∧ .take i ∉ es ∧ .send i ∉ es ∧
      (d.jobs i).outcome = (c.jobs i).outcome := by
  induction run with
  | refl => exact ⟨struck, by simp, by simp, rfl⟩
  | @tail d d' es e _ step ih =>
      obtain ⟨enabled, rfl⟩ := step
      obtain ⟨struck, untaken, unsent, outcome⟩ := ih
      obtain ⟨take, send⟩ := not_enabled_of_struck tasks struck
      obtain ⟨struck', _, outcome'⟩ := (turn_next enabled i).struck tasks struck
      simp only [List.mem_append, List.mem_singleton, not_or]
      refine ⟨struck', ⟨untaken, ?_⟩, ⟨unsent, ?_⟩, outcome'.trans outcome⟩
      · rintro rfl
        exact take enabled
      · rintro rfl
        exact send enabled

/-- When the cancellation has reached all chunks, nothing is sent or noted any more. -/
theorem Execution.frozen (run : Execution s c es d) (tasks : s.style = .tasks)
    (struck : c.IsStruck s) :
    (∀ k, .take k ∉ es ∧ .send k ∉ es) ∧ d.sent = c.sent ∧ d.outcomes s = c.outcomes s := by
  have idle (k : Nat) : .take k ∉ es ∧ .send k ∉ es := by
    constructor
    · intro mem
      exact (run.unsent tasks (struck k (run.inside mem rfl))).2.1 mem
    · intro mem
      exact (run.unsent tasks (struck k (run.inside mem rfl))).2.2.1 mem
  refine ⟨idle, run.sent_eq fun k => (idle k).2, ?_⟩
  apply List.map_congr_left
  intro k within
  exact (run.unsent tasks (struck k (List.mem_range.mp within))).2.2.2

/-! ## After the cancellation -/

/-- A call that has been cancelled: the cancellation has been passed on, or the call went on with it
at once. -/
def IsCancelled (c : Course) : Prop := c.isPassedOn = true ∨ c.ending = some .cancelled

theorem isCancelled_cancel (s : Setting) (c : Course) : (c.next s .cancel).IsCancelled := by
  simp only [next]
  split
  · exact .inr rfl
  · exact .inl rfl

theorem Execution.isCancelled (run : Execution s c es d) (h : c.IsCancelled) : d.IsCancelled := by
  induction run with
  | refl => exact h
  | tail _ step ih =>
      obtain ⟨enabled, rfl⟩ := step
      rcases ih with passedOn | ending
      · exact .inl (isPassedOn_next enabled passedOn)
      · exact .inr (ending_next enabled ending)

/-- It goes on with the cancellation, or with the fault of a chunk. -/
theorem Sound.ending_of_isCancelled (h : c.Sound s) (cancelled : c.IsCancelled) {x : Ending}
    (ending : c.ending = some x) : x = .cancelled ∨
      ∃ i f, i < s.count ∧ x = .escaped f ∧ s.result i = some (.error f) := by
  rcases h.ending x ending with same | gathered
  · exact .inl same
  · rcases h.gathered x gathered with (⟨same, _⟩ | fault) | ⟨untold, _⟩
    · exact .inl same
    · exact .inr fault
    · rcases cancelled with passedOn | cancelled
      · rw [passedOn] at untold
        cases untold
      · rw [cancelled] at ending
        exact .inl (Option.some.inj ending).symm

/-- A call that waits for chunks when it is cancelled, or has waited for all of them to their own
end. -/
structure Told (s : Setting) (c : Course) : Prop where
  reached : c.isPassedOn = true ∨ c.IsDone s
  struck : c.ending.isSome = true → c.IsStruck s

/-- When all chunks have outcomes, all tasks have ended. -/
theorem Sound.isDone (h : c.Sound s) (tasks : s.style = .tasks) (settled : c.IsSettled s) :
    c.IsDone s := by
  intro i inside
  obtain ⟨x, noted⟩ := Option.isSome_iff_exists.mp (settled i inside)
  rcases (h.jobs i).outcome x noted with ⟨ended, _⟩ | ⟨_, _, pool | ended⟩
  · exact ended
  · rw [tasks] at pool
    cases pool
  · exact ended

theorem Told.cancel (h : c.Sound s) (enabled : c.Enabled s .cancel)
    (unescaped : ∀ f, c.gathered ≠ some (.escaped f)) : (c.next s .cancel).Told s := by
  obtain ⟨tasks, untold, running⟩ := enabled
  have running : c.ending = none := Option.isNone_iff_eq_none.mp running
  simp only [next]
  split
  · next finished =>
    have done : c.IsDone s := by
      rcases finished with gathered | done
      · obtain ⟨x, gathered⟩ := Option.isSome_iff_exists.mp gathered
        rcases h.gathered x gathered with (⟨_, passedOn⟩ | ⟨_, f, _, rfl, _⟩) | ⟨_, _, _, places⟩
        · rw [untold] at passedOn
          cases passedOn
        · exact absurd gathered (unescaped f)
        · exact h.isDone tasks (isSettled_of_outcomes places)
      · exact done
    exact ⟨.inr done, fun _ i inside => .inl (done i inside)⟩
  · exact ⟨.inl rfl, by simp [running]⟩

theorem Told.next (h : c.Told s) (tasks : s.style = .tasks) (enabled : c.Enabled s e) :
    (c.next s e).Told s := by
  have done (ended : c.IsDone s) : (c.next s e).IsDone s := by
    intro i inside
    rw [((turn_next enabled i).eq_of_ended (ended i inside)).2]
    exact ended i inside
  have struck (reached : c.IsStruck s) : (c.next s e).IsStruck s :=
    fun i inside => ((turn_next enabled i).struck tasks (reached i inside)).1
  constructor
  · exact h.reached.imp (isPassedOn_next enabled) done
  · intro ended
    cases before : c.ending with
    | some x => exact struck (h.struck (by simp [before]))
    | none =>
        cases e with
        | cancel =>
            rcases h.reached with passedOn | finished
            · have untold := enabled.2.1
              rw [passedOn] at untold
              cases untold
            · exact fun i inside => .inl (done finished i inside)
        | emerge =>
            rcases h.reached with passedOn | finished
            · exact struck (enabled.2.2 passedOn)
            · exact fun i inside => .inl (done finished i inside)
        | gather => simp [Course.next, before] at ended
        | look => simp [Course.next, before] at ended
        | _ => simp [(frame_next enabled (.inl rfl)).2.2, before] at ended

theorem Execution.told (run : Execution s c es d) (tasks : s.style = .tasks) (h : c.Told s) :
    d.Told s := by
  induction run with
  | refl => exact h
  | tail _ step ih =>
      obtain ⟨enabled, rfl⟩ := step
      exact ih.next tasks enabled

/-- Without a deadline, the cancellation reaches all chunks at once. -/
theorem isStruck_cancel (told : (c.next s .cancel).Told s) (timeless : s.seconds = none) :
    (c.next s .cancel).IsStruck s := by
  by_cases finished : c.gathered.isSome = true ∨ c.IsDone s
  · apply told.struck
    rw [next, if_pos finished]
    rfl
  · intro i _
    rw [next, if_neg finished]
    simp only [timeless, Option.isSome_none, Bool.false_eq_true, if_false]
    exact (c.jobs i).isStruck_strike

theorem isStruck_hail (s : Setting) (c : Course) (i : Nat) :
    ((c.next s (.hail i)).jobs i).IsStruck := by
  have struck := (c.jobs i).isStruck_strike
  simp only [next]
  split
  · show ((c.put i Job.strike).jobs i).IsStruck
    rwa [put_self]
  · rwa [put_self]

/-- The cancellation itself notes nothing. -/
theorem cancel_eq (s : Setting) (c : Course) : (c.next s .cancel).sent = c.sent ∧
    (c.next s .cancel).outcomes s = c.outcomes s := by
  refine ⟨sent_next s c (by simp), ?_⟩
  apply List.map_congr_left
  intro i _
  simp only [next]
  split
  · rfl
  · dsimp only
    split
    · rfl
    · show (c.jobs i).strike.outcome = _
      unfold Job.strike
      split <;> rfl

/-- A request that is in flight when the call has gone on, although the cancellation has reached all
chunks, is still to unwind. -/
theorem flying_eq_nil (tasks : s.style = .tasks) (struck : c.IsStruck s)
    (unwound : ∀ i, ¬ c.Enabled s (.unwind i)) : c.flying s = [] := by
  rw [flying, List.filter_eq_nil_iff]
  intro i inside
  have inside := List.mem_range.mp inside
  rw [decide_eq_true_eq]
  intro flies
  rcases struck i inside with ended | cancelled
  · rw [flies] at ended
    cases ended
  · exact unwound i ⟨inside, by simp [cancelled], .inr ⟨tasks, by simp [flies]⟩⟩

end Course

end Schedule

namespace Client

open Schedule (Course)

/-- Is the request of some chunk answered with oversized output? -/
def MeetsOversized (c : Client) (node : Node) (r : Route) (chunks : List (List SubCall)) : Prop :=
  ∃ k chunk raw, chunks[k]? = some chunk ∧ c.reaction node r k chunk = .answer raw ∧
    Aggregate.Oversized raw

/-- That is the only fault that a chunk can have. -/
theorem meetsOversized_of_fault {c : Client} {node : Node} {r : Route}
    {chunks : List (List SubCall)} {k : Nat} {chunk : List SubCall} {f : Fault}
    (h : chunks[k]? = some chunk)
    (fault : settleReaction k chunk.length (c.reaction node r k chunk) = some (.error f)) :
    c.MeetsOversized node r chunks ∧ f = .decode .tooLong := by
  obtain ⟨raw, answer, oversized, rfl⟩ := settleReaction_eq_fault.mp fault
  exact ⟨⟨k, chunk, raw, h, answer, oversized⟩, rfl⟩

variable {c : Client} {node : Node} {options : CallOptions} {calls : List Call}
variable {chunks : List (List SubCall)} {r : Route} {limit : Option Nat}

/-- A call that has been cancelled and goes on raises the cancellation, or the fault of oversized
output. -/
theorem conclude_of_isCancelled {inTurn : Bool} {timed : Option Value} {d : Course}
    (sound : d.Sound (c.setting node r chunks limit inTurn timed)) (cancelled : d.IsCancelled)
    {x : Schedule.Ending} (ending : d.ending = some x) (calls : List Call) (allowed : Bool) :
    conclude calls (chunks.map List.length) allowed x = .raised .cancelled ∨
      (c.MeetsOversized node r chunks ∧
        conclude calls (chunks.map List.length) allowed x =
          .raised (.fault (.decode .tooLong))) := by
  rcases sound.ending_of_isCancelled cancelled ending with rfl | ⟨k, f, _, rfl, fault⟩
  · exact .inl rfl
  · obtain ⟨chunk, hchunk, fault⟩ := Option.bind_eq_some_iff.mp fault
    obtain ⟨oversized, rfl⟩ := meetsOversized_of_fault hchunk fault
    exact .inr ⟨oversized, rfl⟩

/-- So does a run of tasks that is cancelled. -/
theorem outcome_call_of_isCancelled [Platform] {deadline : Schedule.Deadline}
    (started : c.Started (options.within c.settings) calls chunks r limit deadline)
    (style : c.style = .tasks) {cancelAfter : Option Nat}
    (struck : isCancelled cancelAfter (c.entriesFor node r limit chunks deadline) = true) :
    (c.call node (calls.map .call) options cancelAfter).outcome = .raised .cancelled ∨
      (c.MeetsOversized node r chunks ∧
        (c.call node (calls.map .call) options cancelAfter).outcome =
          .raised (.fault (.decode .tooLong))) := by
  rw [started.outcome_call]
  have awaited : await c.style deadline cancelAfter (c.entriesFor node r limit chunks deadline) =
      (Schedule.gather (Schedule.tasks deadline
        (c.entriesFor node r limit chunks deadline))).orCancelled := by
    rw [style, await, Schedule.awaitTasks, struck, if_pos rfl]
    rfl
  cases ending : Schedule.gather (Schedule.tasks deadline
      (c.entriesFor node r limit chunks deadline)) with
  | escaped f =>
      rw [ending] at awaited
      obtain ⟨k, chunk, hchunk, _, fault⟩ := fault_of_await c node r limit awaited
      obtain ⟨oversized, rfl⟩ := meetsOversized_of_fault hchunk fault
      exact .inr ⟨oversized, by rw [awaited]; rfl⟩
  | _ =>
      rw [awaited, ending]
      exact .inl rfl

/-- A run of tasks with any limit, with a deadline or without one, that is cancelled at any moment
before it has gone on. It ends with the cancellation in a bounded number of steps, or with a fault
that an answer has, and never with results. The outcomes that are noted are the chunks' own, or say
that the deadline has passed. If no fault had ended the waiting before, a chunk that the
cancellation has reached sends nothing; without a deadline it reaches all chunks at once, and in any
case before the run ends, so that requests that are still in flight then can only unwind. -/
theorem cancellation_ends_call [Platform] (c : Client) (node : Node) (options : CallOptions)
    (calls : List Call) (chunks : List (List SubCall)) (r : Route) (limit : Option Nat)
    (deadline : Schedule.Deadline) (style : c.style = .tasks)
    (started : c.Started (options.within c.settings) calls chunks r limit deadline)
    (inTurn : Bool) (s : Schedule.Setting)
    (setting : s = c.setting node r chunks limit inTurn deadline.seconds?)
    (before : List Schedule.Event) (g : Course) (run : Course.Execution s .initial before g)
    (running : g.ending = none) (uncancelled : .cancel ∉ before) :
    Course.Step s g .cancel (g.next s .cancel) ∧
    (∀ (after : List Schedule.Event) (d : Course), Course.Execution s (g.next s .cancel) after d →
      (∀ x, d.ending = some x →
        conclude calls (chunks.map List.length) options.allowFailure.truthy x =
            .raised .cancelled ∨
          (c.MeetsOversized node r chunks ∧
            conclude calls (chunks.map List.length) options.allowFailure.truthy x =
              .raised (.fault (.decode .tooLong)))) ∧
      (∀ k o, (d.jobs k).outcome = some o → s.result k = some o ∨
        ∃ seconds, deadline.seconds? = some seconds ∧ o = .ok (s.late k seconds)) ∧
      after.length ≤ 5 * chunks.length + 3 ∧
      (d.ending = none → ∃ e, d.Enabled s e) ∧
      ((∀ f, g.gathered ≠ some (.escaped f)) →
        (deadline.seconds? = none → (∀ k, .take k ∉ after ∧ .send k ∉ after) ∧
          d.sent = g.sent ∧ d.outcomes s = g.outcomes s) ∧
        (∀ first k rest, after = first ++ .hail k :: rest → .take k ∉ rest ∧ .send k ∉ rest) ∧
        (d.ending.isSome = true → d.IsStruck s ∧
          ((∀ k, ¬ d.Enabled s (.unwind k)) → d.flying s = [])))) ∧
    ∀ cancelAfter, isCancelled cancelAfter (c.entriesFor node r limit chunks deadline) = true →
      (c.call node (calls.map .call) options cancelAfter).outcome = .raised .cancelled ∨
        (c.MeetsOversized node r chunks ∧
          (c.call node (calls.map .call) options cancelAfter).outcome =
            .raised (.fault (.decode .tooLong))) := by
  subst setting
  have size : (c.setting node r chunks limit inTurn deadline.seconds?).count = chunks.length :=
    count_setting _ _
  have sound := run.sound (.initial _)
  have fresh := run.uncancelled uncancelled .initial
  have enabled : g.Enabled (c.setting node r chunks limit inTurn deadline.seconds?) .cancel :=
    ⟨style, fresh.untold, Option.isNone_iff_eq_none.mpr running⟩
  have step : Course.Step _ g .cancel (g.next _ .cancel) := ⟨enabled, rfl⟩
  refine ⟨step, ?_, ?_⟩
  · intro after d rest
    have whole := (run.tail step).append rest
    have last := whole.sound (.initial _)
    have cancelled := rest.isCancelled (Course.isCancelled_cancel _ g)
    refine ⟨?_, ?_, ?_, ?_, ?_⟩
    · intro x ending
      exact conclude_of_isCancelled last cancelled ending calls _
    · intro k o noted
      rcases (last.jobs k).outcome o noted with ⟨_, _, own⟩ | ⟨_, late, _⟩
      · exact .inl own
      · obtain ⟨seconds, timed, same⟩ := Option.map_eq_some_iff.mp late
        exact .inr ⟨seconds, timed, same.symm⟩
    · have bound := whole.length_add_left
      rw [Course.left_initial, size, List.length_append] at bound
      omega
    · intro going
      rcases cancelled with passedOn | ended
      · obtain ⟨e, _, enabled⟩ := last.exists_next going (.inr passedOn)
        exact ⟨e, enabled⟩
      · rw [going] at ended
        cases ended
    · intro unescaped
      have told := Course.Told.cancel sound enabled unescaped
      refine ⟨?_, ?_, ?_⟩
      · intro timeless
        have struck := Course.isStruck_cancel told timeless
        obtain ⟨idle, sent, outcomes⟩ := rest.frozen style struck
        obtain ⟨sent', outcomes'⟩ := Course.cancel_eq
          (c.setting node r chunks limit inTurn deadline.seconds?) g
        exact ⟨idle, sent.trans sent', outcomes.trans outcomes'⟩
      · rintro first k rest' rfl
        rw [List.append_cons] at rest
        obtain ⟨d', hailed, second⟩ := rest.split
        obtain ⟨e, _, _, rfl⟩ := hailed.last
        obtain ⟨_, untaken, unsent, _⟩ := second.unsent style (Course.isStruck_hail _ e k)
        exact ⟨untaken, unsent⟩
      · intro ended
        have struck := (rest.told style told).struck ended
        exact ⟨struck, Course.flying_eq_nil style struck⟩
  · intro cancelAfter struck
    exact outcome_call_of_isCancelled started style struck

/-- Two chunks in one slot, to a node that refuses the first one. -/
def queueing : Schedule.Setting :=
  (plain .tasks).setting troubled ⟨some (.text Address.zero.text), false, .text "latest"⟩
    [[.ofCall broken], [.ofCall sound]] (some 1) true (some (.int 5))

/-- The request of the first chunk is in flight, and the second one waits. -/
def crowded : Course := Course.initial.after queueing [.take 0, .send 0]

/-- The first task unwinds and gives its slot back. The second one takes it before the cancellation
has reached it, and unwinds, too. -/
def unwinding : List Schedule.Event :=
  [.hail 0, .unwind 0, .take 1, .hail 1, .unwind 1, .gather, .emerge]

open scoped Platform.Lenient

/-- Only the first request was sent, and the run ends with the cancellation and nothing in
flight. -/
theorem cancellation_ends_call_unwound :
    ((crowded.next queueing .cancel).after queueing unwinding).sent = [0] ∧
      ((crowded.next queueing .cancel).after queueing unwinding).flying queueing = [] ∧
      ∃ x, ((crowded.next queueing .cancel).after queueing unwinding).ending = some x ∧
        conclude [broken, sound] [1, 1] true x = .raised .cancelled := by
  have started : (plain .tasks).Started
      (({ batchSize := .int 2, maxConcurrentChunks := .int 1, timeout := .int 5 } :
        CallOptions).within (plain .tasks).settings) [broken, sound]
      [[.ofCall broken], [.ofCall sound]]
      ⟨some (.text Address.zero.text), false, .text "latest"⟩ (some 1) (.ahead (.int 5)) :=
    ⟨rfl, rfl, rfl, nofun, rfl, rfl, by decide, rfl,
      Schedule.Deadline.ofValue_int (by decide +kernel)⟩
  have before : Course.Execution queueing .initial [.take 0, .send 0] crowded :=
    Course.Possible.execution (by decide)
  have after : Course.Execution queueing (crowded.next queueing .cancel) unwinding
      ((crowded.next queueing .cancel).after queueing unwinding) :=
    Course.Possible.execution (by decide)
  obtain ⟨_, runs, _⟩ := cancellation_ends_call (plain .tasks) troubled
    { batchSize := .int 2, maxConcurrentChunks := .int 1, timeout := .int 5 } [broken, sound]
    _ _ _ (.ahead (.int 5)) rfl started true queueing rfl _ crowded before rfl (by decide)
  obtain ⟨ends, _, _, _, told⟩ := runs _ _ after
  obtain ⟨_, _, struck⟩ := told nofun
  refine ⟨by decide, (struck rfl).2 ?_, .cancelled, rfl, ?_⟩
  · rintro k ⟨inside, _, phase⟩
    have ended := (by decide : ((crowded.next queueing .cancel).after queueing unwinding).IsDone
      queueing) k inside
    rw [ended] at phase
    rcases phase with waits | ⟨_, unended⟩
    · cases waits
    · exact unended rfl
  · rcases ends .cancelled rfl with cancelled | ⟨_, fault⟩
    · exact cancelled
    · cases fault

/-- A node that leaves the first request without an answer and answers the second one with oversized
output. -/
def flooding : Node :=
  ⟨.ok .null, fun k _ => if k = 0 then .hang else .answer overflowing, fun _ _ _ => none⟩

/-- Two chunks with a slot each. -/
def flooded (seconds : Option Value) : Schedule.Setting :=
  (plain .tasks).setting flooding ⟨some (.text Address.zero.text), false, .text "latest"⟩
    [[.ofCall broken], [.ofCall broken]] (some 2) true seconds

/-- The second chunk is answered after the cancellation, before it has been reached. -/
def overtaking : List Schedule.Event :=
  [.take 0, .send 0, .take 1, .send 1, .cancel, .finish 1, .hail 0, .gather, .emerge]

/-- The fault that a call ended with. -/
def faultOf : Schedule.Ending → Option Fault
  | .escaped f => some f
  | _ => none

/-- A fault may come out in place of a cancellation, a request may be sent after it as long as it
has not reached the chunk, and one may still be in flight when it comes out. -/
theorem exists_cancellation_survived :
    (∃ es d f, Course.Execution (flooded (some (.int 5))) .initial es d ∧ .cancel ∈ es ∧
      d.ending = some (.escaped f)) ∧
    (∃ es g es' d, Course.Execution (flooded (some (.int 5))) .initial es g ∧
      g.ending.isNone = true ∧ .cancel ∉ es ∧
      Course.Execution (flooded (some (.int 5))) g (.cancel :: es') d ∧ .send 1 ∈ es') ∧
    ∃ es d, Course.Execution (flooded none) .initial es d ∧ d.ending = some .cancelled ∧
      1 ∈ d.flying (flooded none) := by
  have overtaken : ((Course.initial.after (flooded (some (.int 5))) overtaking).ending.bind
      faultOf).isSome = true := by
    decide +kernel
  obtain ⟨f, escaped⟩ := Option.isSome_iff_exists.mp overtaken
  obtain ⟨x, ending, escaped⟩ := Option.bind_eq_some_iff.mp escaped
  have escapes : x = .escaped f := by
    cases x with
    | escaped f' => rw [Option.some.inj escaped]
    | _ => cases escaped
  refine ⟨⟨overtaking, _, f, Course.Possible.execution (by decide +kernel), by decide,
      escapes ▸ ending⟩,
    ⟨[.take 0, .send 0], _, [.take 1, .send 1], _, Course.Possible.execution (by decide), by decide,
      by decide, Course.Possible.execution (by decide), by decide⟩,
    ⟨[.take 0, .send 0, .take 1, .send 1, .cancel, .unwind 0, .gather, .emerge], _,
      Course.Possible.execution (by decide), rfl, by decide⟩⟩

end Client

end EthBatch
