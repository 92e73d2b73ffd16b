import EthBatch.Proofs.Client.Turn

/-!
# What every order of events keeps

Whatever happens while the chunks of a call run, those that have slots never take more of them than
there are, and the waiting ends with the outcomes of the chunks, with the fault of one of them, or
with a cancellation that has been passed on. `Course.Sound` states this together with what it
rests on. Each event keeps it, so each execution does.
-/

namespace EthBatch.Schedule

namespace Course

variable {s : Setting} {c d d' : Course} {e : Event} {es es' : List Event} {i : Nat}

/-! ## What every event keeps -/

/-- Is this how the waiting may end, if not with outcomes? -/
def Explains (s : Setting) (c : Course) (x : Ending) : Prop :=
  (x = .cancelled ∧ c.isPassedOn = true) ∨
    ∃ i f, i < s.count ∧ x = .escaped f ∧ s.result i = some (.error f)

/-- How a call stands. -/
structure Sound (s : Setting) (c : Course) : Prop where
  jobs : ∀ i, (c.jobs i).Sound s i (c.sent.count i)
  room : ∀ n, s.slots = some n → (c.holders s).length ≤ n
  tasks : c.isPassedOn = true → s.style = .tasks
  struck : ∀ i, (c.jobs i).stop = some .cancelled → c.isPassedOn = true
  heard : ∀ i, (c.jobs i).phase = .ended → (c.jobs i).stop = some .cancelled →
    c.passed.isSome = true
  passed : ∀ x, c.passed = some x → c.Explains s x
  gathered : ∀ x, c.gathered = some x → c.Explains s x ∨
    (c.isPassedOn = false ∧ ∃ os, x = .settled os ∧ c.outcomes s = settled os)
  queue : s.style = .pool → c.gathered.isSome = true → ∀ i < s.count, (c.jobs i).phase ≠ .waiting
  ending : ∀ x, c.ending = some x → x = .cancelled ∨ c.gathered = some x

theorem Sound.initial (s : Setting) : initial.Sound s where
  jobs i := .initial s i
  room := by simp [holders, Course.initial, Phase.holdsSlot]
  tasks := nofun
  struck := nofun
  heard := nofun
  passed := nofun
  gathered := nofun
  queue := nofun
  ending := nofun

theorem Sound.room_next (h : c.Sound s) (enabled : c.Enabled s e) (n : Nat)
    (slots : s.slots = some n) : ((c.next s e).holders s).length ≤ n := by
  have nodup : ((c.next s e).holders s).Nodup := List.nodup_range.filter _
  by_cases takes : ∃ i, e = .take i
  · obtain ⟨i, rfl⟩ := takes
    have room := enabled.2.2.2.1
    simp only [HasRoom, slots] at room
    have most : (c.next s (.take i)).holders s ⊆ i :: c.holders s := by
      intro k mem
      obtain ⟨inside, holds⟩ := List.mem_filter.mp mem
      rcases (turn_next enabled k).holdsSlot_or holds with before | same
      · exact List.mem_cons_of_mem _ (List.mem_filter.mpr ⟨inside, before⟩)
      · cases same
        exact List.mem_cons_self
    have length := (List.subperm_of_subset nodup most).length_le
    rw [List.length_cons] at length
    omega
  · have most : (c.next s e).holders s ⊆ c.holders s := by
      intro k mem
      obtain ⟨inside, holds⟩ := List.mem_filter.mp mem
      rcases (turn_next enabled k).holdsSlot_or holds with before | same
      · exact List.mem_filter.mpr ⟨inside, before⟩
      · exact absurd ⟨k, same⟩ takes
    exact Nat.le_trans (List.subperm_of_subset nodup most).length_le (h.room n slots)

/-- Of the call itself, an event of one chunk and the look at a pool change only what has left a
task. -/
theorem frame_next (enabled : c.Enabled s e) (single : e.chunk?.isSome = true ∨ e = .look) :
    (c.next s e).isPassedOn = c.isPassedOn ∧ (c.next s e).gathered = c.gathered ∧
      (c.next s e).ending = c.ending := by
  rcases single with single | rfl
  · obtain ⟨i, single⟩ := Option.isSome_iff_exists.mp single
    have touches := touches_next enabled single
    exact ⟨touches.isPassedOn, touches.gathered, touches.ending⟩
  · exact ⟨rfl, rfl, rfl⟩

/-- A call goes on once. -/
theorem ending_next (enabled : c.Enabled s e) {x : Ending} (ending : c.ending = some x) :
    (c.next s e).ending = some x := by
  have gone (running : c.ending.isNone = true) {p : Prop} : p := by
    rw [ending] at running
    cases running
  cases e with
  | cancel => exact gone enabled.2.2
  | emerge => exact gone enabled.1
  | gather => exact ending
  | look => exact ending
  | _ => exact (frame_next enabled (.inl rfl)).2.2.trans ending

/-- What has left a task first stays, and something else leaves one only for a reason. -/
theorem passed_next (enabled : c.Enabled s e) :
    (c.next s e).passed = c.passed ∨ ∃ x, (c.next s e).passed = c.passed.or (some x) ∧
      ((x = .cancelled ∧ ∃ i, e = .hail i ∨ (e = .unwind i ∧ (c.jobs i).stop = some .cancelled)) ∨
        ∃ i f, i < s.count ∧ x = .escaped f ∧ s.result i = some (.error f)) := by
  cases e with
  | finish i =>
      simp only [next, passFault]
      split
      · next _ f _ result => exact .inr ⟨_, rfl, .inr ⟨i, f, enabled.1, rfl, result⟩⟩
      · exact .inl rfl
  | unwind i =>
      simp only [next]
      split
      · next struck => exact .inr ⟨_, rfl, .inl ⟨rfl, i, .inr ⟨rfl, struck⟩⟩⟩
      · exact .inl rfl
  | hail i =>
      simp only [next]
      split
      · exact .inr ⟨_, rfl, .inl ⟨rfl, i, .inl rfl⟩⟩
      · exact .inl rfl
  | cancel =>
      simp only [next]
      split
      · exact .inl rfl
      · exact .inl rfl
  | _ => exact .inl rfl

theorem isSome_passed_next (enabled : c.Enabled s e) (passed : c.passed.isSome = true) :
    (c.next s e).passed.isSome = true := by
  rcases passed_next enabled with same | ⟨x, same, _⟩
  · rwa [same]
  · simp [same]

/-- A cancellation that has been passed on is not taken back. -/
theorem isPassedOn_next (enabled : c.Enabled s e) (passedOn : c.isPassedOn = true) :
    (c.next s e).isPassedOn = true := by
  cases e with
  | cancel =>
      have fresh := enabled.2.1
      rw [passedOn] at fresh
      cases fresh
  | gather => exact passedOn
  | emerge => exact passedOn
  | look => exact passedOn
  | _ =>
      rw [(frame_next enabled (.inl rfl)).1]
      exact passedOn

theorem Explains.next {x : Ending} (h : c.Explains s x) (enabled : c.Enabled s e) :
    (c.next s e).Explains s x := by
  rcases h with ⟨rfl, passedOn⟩ | fault
  · exact .inl ⟨rfl, isPassedOn_next enabled passedOn⟩
  · exact .inr fault

/-- When all chunks have outcomes, these stay. -/
theorem outcomes_next (enabled : c.Enabled s e) {os : List ChunkOutcome}
    (settled : c.outcomes s = settled os) : (c.next s e).outcomes s = Schedule.settled os := by
  rw [← settled, outcomes, outcomes]
  apply List.map_congr_left
  intro i inside
  obtain ⟨o, _, noted⟩ := exists_of_settled settled (List.mem_range.mp inside)
  rw [noted]
  exact (turn_next enabled i).outcome_eq noted

/-- What the waiting comes to when all chunks that count have ended. -/
theorem Sound.gather_cases (h : c.Sound s) (ready : c.IsReady s) (unpassed : c.passed = none) :
    (∃ os, Schedule.gather (c.outcomes s) = .settled os ∧ c.outcomes s = Schedule.settled os) ∨
      ∃ i f, i < s.count ∧ Schedule.gather (c.outcomes s) = .escaped f ∧
        s.result i = some (.error f) := by
  -- Each chunk has an outcome, so the waiting is not for nothing.
  have noted (i : Nat) (inside : i < s.count) : (c.jobs i).outcome.isSome = true := by
    have ends (ended : (c.jobs i).phase = .ended) : (c.jobs i).outcome.isSome = true := by
      apply (h.jobs i).noted ended
      intro struck
      have heard := h.heard i ended struck
      rw [unpassed] at heard
      cases heard
    rcases ready with done | ready
    · exact ends (done i inside)
    · cases style : s.style with
      | tasks =>
          simp only [style, unpassed] at ready
          cases ready
      | pool =>
          simp only [style] at ready
          rcases ready i inside with ended | ⟨stopped, _⟩
          · exact ends ended
          · exact ((h.jobs i).halted style (Option.ne_none_iff_isSome.mpr stopped)).2
  cases ending : Schedule.gather (c.outcomes s) with
  | settled os => exact .inl ⟨os, rfl, gather_eq_settled.mp ending⟩
  | escaped f =>
      obtain ⟨i, inside, fault⟩ := List.mem_map.mp (mem_of_gather_escaped ending)
      refine .inr ⟨i, f, List.mem_range.mp inside, rfl, ?_⟩
      rcases (h.jobs i).outcome _ fault with ⟨_, _, own⟩ | ⟨_, late, _⟩
      · exact own
      · obtain ⟨seconds, _, late⟩ := Option.map_eq_some_iff.mp late
        cases late
  | cancelled => exact absurd ending (gather_ne_cancelled _)
  | pending =>
      obtain ⟨i, inside, unnoted⟩ := List.mem_map.mp (none_mem_of_gather_pending ending)
      have noted := noted i (List.mem_range.mp inside)
      rw [unnoted] at noted
      cases noted

theorem Sound.gathered_next (h : c.Sound s) (enabled : c.Enabled s e) (x : Ending)
    (gathered : (c.next s e).gathered = some x) : (c.next s e).Explains s x ∨
      ((c.next s e).isPassedOn = false ∧
        ∃ os, x = .settled os ∧ (c.next s e).outcomes s = settled os) := by
  -- What was gathered before is still explained.
  have before (same : (c.next s e).gathered = c.gathered)
      (untold : c.gathered.isSome = true → (c.next s e).isPassedOn = c.isPassedOn) :
      (c.next s e).Explains s x ∨ ((c.next s e).isPassedOn = false ∧
        ∃ os, x = .settled os ∧ (c.next s e).outcomes s = settled os) := by
    rw [same] at gathered
    rcases h.gathered x gathered with explains | ⟨fresh, os, rfl, outcomes⟩
    · exact .inl (explains.next enabled)
    · refine .inr ⟨?_, os, rfl, outcomes_next enabled outcomes⟩
      rw [untold (by simp [gathered]), fresh]
  cases e with
  | cancel =>
      refine before ?_ ?_
      · simp only [next]
        split <;> rfl
      · intro some
        simp only [next, some, true_or, if_true]
  | emerge => exact before rfl fun _ => rfl
  | look => exact before rfl fun _ => rfl
  | gather =>
      obtain ⟨_, ready⟩ := enabled
      have x_eq := (Option.some.inj gathered).symm
      cases passed : c.passed with
      | some y =>
          rw [passed, Option.getD_some] at x_eq
          subst x_eq
          exact .inl (h.passed _ passed)
      | none =>
          rw [passed, Option.getD_none] at x_eq
          cases passedOn : c.isPassedOn with
          | true =>
              rw [passedOn, if_pos rfl] at x_eq
              exact .inl (.inl ⟨x_eq, passedOn⟩)
          | false =>
              rw [passedOn, if_neg Bool.false_ne_true] at x_eq
              rcases h.gather_cases ready passed with
                ⟨os, same, outcomes⟩ | ⟨i, f, inside, same, fault⟩
              · exact .inr ⟨passedOn, os, x_eq.trans same, outcomes⟩
              · exact .inl (.inr ⟨i, f, inside, x_eq.trans same, fault⟩)
  | _ =>
      obtain ⟨passedOn, gathered, _⟩ := frame_next enabled (.inl rfl)
      exact before gathered fun _ => passedOn

theorem Sound.queue_next (h : c.Sound s) (enabled : c.Enabled s e) (pool : s.style = .pool)
    (gathered : (c.next s e).gathered.isSome = true) (i : Nat) (inside : i < s.count) :
    ((c.next s e).jobs i).phase ≠ .waiting := by
  intro still
  have waits := (turn_next enabled i).waiting still
  have before (gathered : c.gathered.isSome = true) : False :=
    h.queue pool gathered i inside waits
  cases e with
  | gather =>
      -- A pool is not left as long as a chunk is on the queue.
      rcases enabled.2 with done | ready
      · have ended := done i inside
        rw [waits] at ended
        cases ended
      · simp only [pool] at ready
        rcases ready i inside with ended | ⟨_, taken⟩
        · rw [waits] at ended
          cases ended
        · exact taken waits
  | cancel =>
      have tasks := enabled.1
      rw [pool] at tasks
      cases tasks
  | emerge => exact before gathered
  | look => exact before gathered
  | _ =>
      rw [(frame_next enabled (.inl rfl)).2.1] at gathered
      exact before gathered

/-- Every event keeps a call sound. -/
theorem Sound.next (h : c.Sound s) (enabled : c.Enabled s e) : (c.next s e).Sound s where
  jobs i := (h.jobs i).turn (turn_next enabled i)
  room := h.room_next enabled
  tasks := by
    intro passedOn
    cases e with
    | cancel => exact enabled.1
    | gather => exact h.tasks passedOn
    | emerge => exact h.tasks passedOn
    | look => exact h.tasks passedOn
    | _ =>
        rw [(frame_next enabled (.inl rfl)).1] at passedOn
        exact h.tasks passedOn
  struck := by
    intro i struck
    rcases (turn_next enabled i).struck_or struck with before | rfl | rfl
    · exact isPassedOn_next enabled (h.struck i before)
    · -- A cancellation that strikes a chunk at once has been passed on.
      simp only [Course.next] at struck ⊢
      split
      · next finished =>
        rw [if_pos finished] at struck
        have passedOn := h.struck i struck
        have fresh := enabled.2.1
        rw [passedOn] at fresh
        cases fresh
      · rfl
    · exact isPassedOn_next enabled enabled.2.1
  heard := by
    intro i ended struck
    rcases (turn_next enabled i).ended_or (h.jobs i) ended struck with
      ⟨ended, struck⟩ | ⟨rfl, struck⟩
    · exact isSome_passed_next enabled (h.heard i ended struck)
    · rw [Course.next, if_pos ‹_›]
      simp [pass]
  passed := by
    intro x passed
    rcases passed_next enabled with same | ⟨y, same, why⟩
    · exact (h.passed x (same ▸ passed)).next enabled
    · rw [same] at passed
      cases before : c.passed with
      | some z =>
          rw [before, Option.some_or] at passed
          exact (h.passed x (before.trans passed)).next enabled
      | none =>
          rw [before, Option.none_or] at passed
          obtain rfl := Option.some.inj passed
          rcases why with ⟨rfl, i, rfl | ⟨rfl, struck⟩⟩ | fault
          · exact .inl ⟨rfl, isPassedOn_next enabled enabled.2.1⟩
          · exact .inl ⟨rfl, isPassedOn_next enabled (h.struck i struck)⟩
          · exact .inr fault
  gathered := h.gathered_next enabled
  queue := h.queue_next enabled
  ending := by
    intro x ending
    cases e with
    | cancel =>
        simp only [Course.next] at ending ⊢
        split at ending
        · exact .inl (Option.some.inj ending).symm
        · next unfinished =>
          rw [if_neg unfinished]
          exact h.ending x ending
    | gather =>
        -- The call does not go on before the waiting is over, unless it is cancelled.
        rcases h.ending x ending with cancelled | gathered
        · exact .inl cancelled
        · have fresh := enabled.1
          rw [gathered] at fresh
          cases fresh
    | emerge => exact .inr ending
    | look => exact h.ending x ending
    | _ =>
        obtain ⟨_, gathered, same⟩ := frame_next enabled (.inl rfl)
        rw [gathered]
        rw [same] at ending
        exact h.ending x ending

theorem Execution.sound (run : Execution s c es d) (h : c.Sound s) : d.Sound s := by
  induction run with
  | refl => exact h
  | tail _ step ih =>
      obtain ⟨enabled, rfl⟩ := step
      exact ih.next enabled

/-! ## Lists of events -/

theorem Execution.append (first : Execution s c es d) (second : Execution s d es' d') :
    Execution s c (es ++ es') d' := by
  induction second with
  | refl => rwa [List.append_nil]
  | tail _ step ih =>
      rw [← List.append_assoc]
      exact ih.tail step

/-- The events of chunks are those of chunks of the call. -/
theorem Execution.inside (run : Execution s c es d) (mem : e ∈ es) (single : e.chunk? = some i) :
    i < s.count := by
  induction run with
  | refl => cases mem
  | tail _ step ih =>
      rcases List.mem_append.mp mem with mem | mem
      · exact ih mem
      · obtain rfl := List.mem_singleton.mp mem
        exact (touches_next step.1 single).inside

theorem Execution.sent_eq (run : Execution s c es d) (unsent : ∀ i, .send i ∉ es) :
    d.sent = c.sent := by
  induction run with
  | refl => rfl
  | tail _ step ih =>
      obtain ⟨_, rfl⟩ := step
      rw [sent_next s _ (by rintro i rfl; exact unsent i (by simp)),
        ih fun i mem => unsent i (List.mem_append_left _ mem)]

/-- The last step of an execution. -/
theorem Execution.last (run : Execution s c (es ++ [e]) d) :
    ∃ d', Execution s c es d' ∧ Step s d' e d := by
  generalize parts : es ++ [e] = all at run
  cases run with
  | refl => simp at parts
  | tail run step =>
      obtain ⟨rfl, same⟩ := List.append_inj' parts rfl
      cases same
      exact ⟨_, run, step⟩

/-- An execution can be taken apart. -/
theorem Execution.split (run : Execution s c (es ++ es') d) :
    ∃ d', Execution s c es d' ∧ Execution s d' es' d := by
  induction es' using List.reverseRecOn generalizing d with
  | nil => exact ⟨d, by rwa [List.append_nil] at run, .refl d⟩
  | append_singleton rest e ih =>
      rw [← List.append_assoc] at run
      obtain ⟨d', run, step⟩ := run.last
      obtain ⟨middle, first, second⟩ := ih run
      exact ⟨middle, first, second.tail step⟩

/-- Are events possible one after the other? -/
def Possible (s : Setting) (c : Course) : List Event → Prop
  | [] => True
  | e :: es => c.Enabled s e ∧ Possible s (c.next s e) es

instance decidablePossible (s : Setting) : ∀ (c : Course) (es : List Event),
    Decidable (Possible s c es)
  | _, [] => isTrue trivial
  | c, e :: es =>
    have := decidablePossible s (c.next s e) es
    inferInstanceAs (Decidable (_ ∧ _))

/-- The state after some events. -/
def after (s : Setting) (c : Course) (es : List Event) : Course := es.foldl (next s) c

theorem Possible.execution (possible : Possible s c es) : Execution s c es (c.after s es) := by
  induction es generalizing c with
  | nil => exact .refl c
  | cons e es ih =>
      obtain ⟨enabled, rest⟩ := possible
      exact ((Execution.refl c).tail ⟨enabled, rfl⟩).append (ih rest)

/-! ## Calls that nobody cancels -/

/-- A call that has not been cancelled goes on with what the waiting for its chunks came to. -/
structure Uncancelled (c : Course) : Prop where
  untold : c.isPassedOn = false
  ending : ∀ x, c.ending = some x → c.gathered = some x

theorem Uncancelled.initial : Course.initial.Uncancelled where
  untold := rfl
  ending := nofun

theorem Uncancelled.next (h : c.Uncancelled) (enabled : c.Enabled s e) (other : e ≠ .cancel) :
    (c.next s e).Uncancelled := by
  cases e with
  | cancel => exact absurd rfl other
  | gather =>
      refine ⟨h.untold, ?_⟩
      intro x ending
      have fresh := enabled.1
      rw [h.ending x ending] at fresh
      cases fresh
  | emerge => exact ⟨h.untold, fun x ending => ending⟩
  | look => exact ⟨h.untold, h.ending⟩
  | _ =>
      obtain ⟨passedOn, gathered, ending⟩ := frame_next enabled (.inl rfl)
      exact ⟨passedOn.trans h.untold, by rw [ending, gathered]; exact h.ending⟩

theorem Execution.uncancelled (run : Execution s c es d) (never : .cancel ∉ es)
    (h : c.Uncancelled) : d.Uncancelled := by
  induction run with
  | refl => exact h
  | tail _ step ih =>
      rw [List.mem_append, not_or, List.mem_singleton] at never
      obtain ⟨enabled, rfl⟩ := step
      exact (ih never.1).next enabled fun same => never.2 same.symm

/-- Such a call ends with the outcomes of all chunks, or with the fault of one. -/
theorem Uncancelled.ending_cases (h : c.Uncancelled) (sound : c.Sound s) {x : Ending}
    (ending : c.ending = some x) :
    (∃ os, x = .settled os ∧ c.outcomes s = settled os) ∨
      ∃ i f, i < s.count ∧ x = .escaped f ∧ s.result i = some (.error f) := by
  rcases sound.gathered x (h.ending x ending) with (⟨_, passedOn⟩ | fault) | ⟨_, settled⟩
  · rw [h.untold] at passedOn
    cases passedOn
  · exact .inr fault
  · exact .inl settled

end Course

end EthBatch.Schedule
