import EthBatch.Proofs.Client.Course

/-!
# The way to the end of a call

Every event brings the end closer, so every execution is short. Nothing waits forever either: as
long as a call has not gone on, something can happen, if all requests are answered, if there is a
deadline to pass, or if a cancellation is on its way. A call whose chunks are left alone ends with
what comes of each of them by itself.
-/

namespace EthBatch.Schedule

namespace Course

variable {s : Setting} {c d : Course} {e : Event} {es : List Event} {i : Nat}

/-! ## The way to the end -/

/-- The events of the call itself that are still to come at most. -/
def remaining (c : Course) : Nat :=
  (!c.isPassedOn).toNat + c.gathered.isNone.toNat + c.ending.isNone.toNat

/-- The events that are still to come at most. -/
def left (s : Setting) (c : Course) : Nat :=
  ∑ i ∈ Finset.range s.count, (c.jobs i).left + c.remaining

theorem left_initial (s : Setting) : initial.left s = 5 * s.count + 3 := by
  have fresh : ∀ i ∈ Finset.range s.count, (initial.jobs i).left = 5 := fun _ _ => rfl
  rw [left, Finset.sum_congr rfl fresh, Finset.sum_const, Finset.card_range, smul_eq_mul,
    Nat.mul_comm]
  rfl

theorem sum_left_le (enabled : c.Enabled s e) :
    ∑ i ∈ Finset.range s.count, ((c.next s e).jobs i).left ≤
      ∑ i ∈ Finset.range s.count, (c.jobs i).left :=
  Finset.sum_le_sum fun i _ => (turn_next enabled i).left_le

theorem sum_left_lt (enabled : c.Enabled s e) (inside : i < s.count)
    (changed : (c.next s e).jobs i ≠ c.jobs i) :
    ∑ i ∈ Finset.range s.count, ((c.next s e).jobs i).left <
      ∑ i ∈ Finset.range s.count, (c.jobs i).left :=
  Finset.sum_lt_sum (fun k _ => (turn_next enabled k).left_le)
    ⟨i, Finset.mem_range.mpr inside, (turn_next enabled i).left_lt changed⟩

/-- Every event brings the end closer. -/
theorem left_next (enabled : c.Enabled s e) : (c.next s e).left s < c.left s := by
  have same (passedOn : (c.next s e).isPassedOn = c.isPassedOn)
      (gathered : (c.next s e).gathered = c.gathered) (ending : (c.next s e).ending = c.ending) :
      (c.next s e).remaining = c.remaining := by
    rw [remaining, passedOn, gathered, ending, remaining]
  cases single : e.chunk? with
  | some i =>
      have touches := touches_next enabled single
      have closer := sum_left_lt enabled touches.inside touches.changed
      have rest := same touches.isPassedOn touches.gathered touches.ending
      unfold left
      omega
  | none =>
      have jobs := sum_left_le enabled
      unfold left
      cases e with
      | look =>
          obtain ⟨_, _, _, i, inside, unended⟩ := id enabled
          have changed : (c.next s .look).jobs i ≠ c.jobs i := by
            intro same
            have late := congrArg Job.stop same
            simp [next, Job.halt, unended, unended.2] at late
          have closer := sum_left_lt enabled inside changed
          have rest := same rfl rfl rfl
          omega
      | cancel =>
          obtain ⟨_, untold, running⟩ := enabled
          have closer : (c.next s .cancel).remaining < c.remaining := by
            rw [Option.isNone_iff_eq_none] at running
            simp only [next]
            split
            · simp [remaining, untold, running]
            · simp [remaining, untold, running]
          omega
      | gather =>
          have closer : (c.next s .gather).remaining < c.remaining := by
            have running := enabled.1
            rw [Option.isNone_iff_eq_none] at running
            simp only [remaining, next, running, Option.isNone_some, Option.isNone_none,
              Bool.toNat_true, Bool.toNat_false]
            omega
          omega
      | emerge =>
          obtain ⟨running, gathered, _⟩ := enabled
          have closer : (c.next s .emerge).remaining < c.remaining := by
            have ended : (c.next s .emerge).ending.isNone = false := by
              rw [next, Option.isNone_eq_false_iff]
              exact gathered
            simp only [remaining, ended, running, Bool.toNat_true, Bool.toNat_false]
            simp only [next]
            omega
          omega
      | _ => cases single

/-- Every execution comes to an end. -/
theorem Execution.length_add_left (run : Execution s c es d) :
    es.length + d.left s ≤ c.left s := by
  induction run with
  | refl => simp
  | tail _ step ih =>
      obtain ⟨enabled, rfl⟩ := step
      have closer := left_next enabled
      rw [List.length_append, List.length_singleton]
      omega

/-- When the waiting need not go on, the call can. -/
theorem exists_end (running : c.ending = none) (untold : c.isPassedOn = false)
    (ready : c.IsReady s) : ∃ e, e ≠ .cancel ∧ c.Enabled s e := by
  cases gathered : c.gathered with
  | none => exact ⟨.gather, by simp, Option.isNone_iff_eq_none.mpr gathered, ready⟩
  | some x =>
      refine ⟨.emerge, by simp, Option.isNone_iff_eq_none.mpr running,
        Option.isSome_iff_exists.mpr ⟨x, gathered⟩, ?_⟩
      intro passedOn
      rw [untold] at passedOn
      cases passedOn

/-- As long as a call has not gone on, something can happen, if there is a deadline to pass or a
cancellation on its way. -/
theorem Sound.exists_next (h : c.Sound s) (running : c.ending = none)
    (pressed : s.seconds.isSome = true ∨ c.isPassedOn = true) :
    ∃ e, e ≠ .cancel ∧ c.Enabled s e := by
  have running : c.ending.isNone = true := Option.isNone_iff_eq_none.mpr running
  -- A task that a cancellation has to reach is resumed.
  have hails (passedOn : c.isPassedOn = true) {i : Nat} (inside : i < s.count)
      (unended : (c.jobs i).phase ≠ .ended) (unstruck : (c.jobs i).stop ≠ some .cancelled) :
      ∃ e, e ≠ .cancel ∧ c.Enabled s e :=
    ⟨.hail i, by simp, h.tasks passedOn, passedOn, inside, unended, unstruck⟩
  cases gathered : c.gathered with
  | some x =>
      by_cases struck : c.isPassedOn = true → c.IsStruck s
      · exact ⟨.emerge, by simp, running, Option.isSome_iff_exists.mpr ⟨x, gathered⟩, struck⟩
      · simp only [IsStruck, Job.IsStruck, Classical.not_imp, Classical.not_forall,
          not_or] at struck
        obtain ⟨passedOn, i, inside, unended, unstruck⟩ := struck
        exact hails passedOn inside unended unstruck
  | none =>
      by_cases ready : c.IsReady s
      · exact ⟨.gather, by simp, Option.isNone_iff_eq_none.mpr gathered, ready⟩
      · simp only [IsReady, not_or] at ready
        obtain ⟨undone, waits⟩ := ready
        cases style : s.style with
        | pool =>
            -- Some chunk is open, or is still on the queue.
            simp only [style, Classical.not_forall, not_or, not_and, not_not] at waits
            obtain ⟨i, inside, unended, queued⟩ := waits
            cases stop : (c.jobs i).stop with
            | none =>
                rcases pressed with timed | passedOn
                · exact ⟨.look, by simp, style, timed, running, i, inside, unended, stop⟩
                · have tasks := h.tasks passedOn
                  rw [style] at tasks
                  cases tasks
            | some why =>
                rw [stop] at queued
                exact ⟨.unwind i, by simp, inside, Option.isSome_iff_exists.mpr ⟨why, stop⟩,
                  .inl (queued rfl)⟩
        | tasks =>
            simp only [IsDone, Classical.not_forall] at undone
            obtain ⟨i, inside, unended⟩ := undone
            cases stop : (c.jobs i).stop with
            | some why =>
                exact ⟨.unwind i, by simp, inside, Option.isSome_iff_exists.mpr ⟨why, stop⟩,
                  .inr ⟨style, unended⟩⟩
            | none =>
                cases passedOn : c.isPassedOn with
                | true => exact hails passedOn inside unended (by simp [stop])
                | false =>
                    have timed := pressed.resolve_right (by simp [passedOn])
                    exact ⟨.lapse i, by simp, style, timed, passedOn, inside, unended, stop⟩

/-! ## Calls whose chunks are left alone -/

/-- Has no chunk been given up? -/
def Calm (c : Course) : Prop := ∀ i, (c.jobs i).stop = none

theorem Execution.calm (run : Execution s c es d) (goes : ∀ e ∈ es, e.stops = false)
    (h : c.Calm) : d.Calm := by
  induction run with
  | refl => exact h
  | tail _ step ih =>
      obtain ⟨enabled, rfl⟩ := step
      have before := ih fun e mem => goes e (List.mem_append_left _ mem)
      intro i
      rw [(turn_next enabled i).stop_eq (goes _ (by simp)), before i]

/-- Without a deadline and a cancellation no chunk is given up. -/
theorem Execution.goes (run : Execution s c es d) (timeless : s.seconds = none)
    (never : .cancel ∉ es) (h : c.Uncancelled) : ∀ e ∈ es, e.stops = false := by
  induction run with
  | refl => simp
  | @tail d d' es e run step ih =>
      rw [List.mem_append, not_or, List.mem_singleton] at never
      intro e' mem
      rcases List.mem_append.mp mem with mem | mem
      · exact ih never.1 e' mem
      · obtain rfl := List.mem_singleton.mp mem
        have enabled := step.1
        cases e' with
        | look => simp [Enabled, timeless] at enabled
        | lapse i => simp [Enabled, timeless] at enabled
        | cancel => exact absurd rfl never.2
        | hail i =>
            have told := enabled.2.1
            rw [(run.uncancelled never.1 h).untold] at told
            cases told
        | _ => rfl

/-- Has every chunk an outcome? -/
def IsSettled (s : Setting) (c : Course) : Prop :=
  ∀ i < s.count, (c.jobs i).outcome.isSome = true

theorem isSettled_of_outcomes {os : List ChunkOutcome}
    (settled : c.outcomes s = Schedule.settled os) : c.IsSettled s := by
  intro i inside
  obtain ⟨o, _, noted⟩ := exists_of_settled settled inside
  rw [noted]
  rfl

section Calm

variable (h : c.Sound s) (calm : c.Calm)

/-- No request is sent twice. -/
theorem Sound.nodup_sent (h : c.Sound s) : c.sent.Nodup :=
  List.nodup_iff_count_le_one.mpr fun i => (h.jobs i).once

theorem flying_subset (s : Setting) (c : Course) : c.flying s ⊆ c.holders s := by
  intro i mem
  obtain ⟨inside, flies⟩ := List.mem_filter.mp mem
  refine List.mem_filter.mpr ⟨inside, ?_⟩
  rw [of_decide_eq_true flies]
  rfl

/-- The requests in flight take no more than the slots. -/
theorem Sound.length_flying_le (h : c.Sound s) {n : Nat} (slots : s.slots = some n) :
    (c.flying s).length ≤ n :=
  Nat.le_trans (List.subperm_of_subset (List.nodup_range.filter _) (flying_subset s c)).length_le
    (h.room n slots)

include h calm in
/-- A chunk that has an outcome has its own, and its request was sent. -/
theorem Sound.own_of_calm {x : Except Fault ChunkOutcome} (noted : (c.jobs i).outcome = some x) :
    (c.jobs i).phase = .ended ∧ c.sent.count i = 1 ∧ s.result i = some x := by
  rcases (h.jobs i).outcome x noted with own | ⟨late, _⟩
  · exact own
  · rw [calm i] at late
    cases late

include h calm in
/-- When all chunks have outcomes, each was sent once, none is in flight, and every place holds
the outcome of its own chunk. -/
theorem Sound.settled (settled : c.IsSettled s) :
    c.flying s = [] ∧ c.sent.Perm (List.range s.count) ∧
      c.outcomes s = (List.range s.count).map s.result := by
  have own (i : Nat) (inside : i < s.count) : (c.jobs i).phase = .ended ∧ c.sent.count i = 1 ∧
      s.result i = (c.jobs i).outcome := by
    obtain ⟨x, noted⟩ := Option.isSome_iff_exists.mp (settled i inside)
    rw [noted]
    exact h.own_of_calm calm noted
  refine ⟨?_, ?_, ?_⟩
  · rw [flying, List.filter_eq_nil_iff]
    intro i inside
    simp [(own i (List.mem_range.mp inside)).1]
  · rw [List.perm_iff_count]
    intro i
    by_cases inside : i < s.count
    · rw [(own i inside).2.1, List.count_eq_one_of_mem List.nodup_range (List.mem_range.mpr inside)]
    · have waits := (h.jobs i).outside (Nat.not_lt.mp inside)
      rw [(h.jobs i).unsent (.inl waits), List.count_eq_zero_of_not_mem (by simpa using inside)]
  · apply List.map_congr_left
    intro i inside
    exact (own i (List.mem_range.mp inside)).2.2.symm

include calm in
/-- At least so much is left as could still happen to chunks that are given up. -/
theorem left_of_calm (untold : c.isPassedOn = false) : 2 * s.count + 1 ≤ c.left s := by
  have each : ∀ i ∈ Finset.range s.count, 2 ≤ (c.jobs i).left := by
    intro i _
    simp [Job.left, calm i]
  have sum := Finset.card_nsmul_le_sum _ _ 2 each
  rw [Finset.card_range, smul_eq_mul] at sum
  simp only [left, remaining, untold, Bool.not_false, Bool.toNat_true]
  omega

include calm in
/-- As long as some chunk has no outcome, one can move, if all requests are answered. -/
theorem exists_move (slots : s.slots ≠ some 0)
    (answered : ∀ i < s.count, (s.result i).isSome = true) (undone : ¬ c.IsDone s) :
    ∃ e, e ≠ .cancel ∧ c.Enabled s e := by
  have goesOn (i : Nat) : s.GoesOn (c.jobs i) := .inl (calm i)
  -- A chunk that has a slot can go on; if there is none, all slots are free.
  by_cases held : c.holders s = []
  · have room : c.HasRoom s := by
      unfold HasRoom
      split
      · trivial
      · next n here =>
        have positive : n ≠ 0 := fun zero => slots (by rw [here, zero])
        rw [held, List.length_nil]
        omega
    have waits (i : Nat) (inside : i < s.count) (unended : (c.jobs i).phase ≠ .ended) :
        (c.jobs i).phase = .waiting := by
      have idle := List.filter_eq_nil_iff.mp held i (List.mem_range.mpr inside)
      cases phase : (c.jobs i).phase with
      | waiting => rfl
      | holding => simp [phase, Phase.holdsSlot] at idle
      | flying => simp [phase, Phase.holdsSlot] at idle
      | ended => exact absurd phase unended
    simp only [IsDone, Classical.not_forall] at undone
    have least := Nat.find_spec undone
    obtain ⟨inside, unended⟩ := least
    refine ⟨.take (Nat.find undone), by simp, inside, waits _ inside unended, goesOn _, room, ?_⟩
    intro _ k before waiting
    have ended := Nat.find_min undone before
    simp only [not_exists, not_not] at ended
    have ended := ended (Nat.lt_trans before inside)
    rw [waiting] at ended
    cases ended
  · obtain ⟨i, mem⟩ := List.exists_mem_of_ne_nil _ held
    obtain ⟨inside, holds⟩ := List.mem_filter.mp mem
    have inside := List.mem_range.mp inside
    cases phase : (c.jobs i).phase with
    | waiting => simp [phase, Phase.holdsSlot] at holds
    | holding => exact ⟨.send i, by simp, inside, phase, goesOn i⟩
    | flying => exact ⟨.finish i, by simp, inside, phase, goesOn i, answered i inside⟩
    | ended => simp [phase, Phase.holdsSlot] at holds

end Calm

end Course

end EthBatch.Schedule
