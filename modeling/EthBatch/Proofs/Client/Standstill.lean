import EthBatch.Proofs.Client.Turns

/-!
# Nothing more comes of the chunks

When a call is quiet before its deadline, nothing more comes of any chunk, as long as no slot is
taken. A pool has none to give, because the requests that hang keep theirs. Tasks give theirs back
when they unwind, so there it matters that the timers of all have gone off before a slot is taken
again. After the call has gone on, no chunk starts, and the outcomes stay.
-/

namespace EthBatch.Schedule

namespace Course

variable {s : Setting} {c d d' : Course} {e : Event} {es es' : List Event} {i : Nat}

/-- A chunk that comes to nothing more by itself: it has ended with its own outcome, or it has none
before it and can only time out. -/
def Parked (s : Setting) (i : Nat) (j : Job) : Prop :=
  (j.phase = .ended ∧ (s.own i).isSome = true ∧ j.outcome = s.own i) ∨
    (s.own i = none ∧ j.phase ≠ .holding ∧ (j.phase = .flying → s.result i = none) ∧
      ∀ x, j.outcome = some x → s.timedOut i = some x)

/-- Then a turn only gives it up, unless it takes a slot. -/
theorem Parked.turn {n n' : Nat} {j j' : Job} (h : Parked s i j) (turn : Turn s i e n j n' j')
    (untaken : e ≠ .take i) : Parked s i j' ∧ n' = n := by
  rcases h with ⟨ended, own⟩ | ⟨unowned, idle, hangs, noted⟩
  · obtain ⟨rfl, rfl⟩ := turn.eq_of_ended ended
    exact ⟨.inl ⟨ended, own⟩, rfl⟩
  · have late (x : Except Fault ChunkOutcome) (why : j.outcome.or (s.timedOut i) = some x) :
        s.timedOut i = some x := by
      cases before : j.outcome with
      | none => rwa [before, Option.none_or] at why
      | some y =>
          rw [before, Option.some_or] at why
          exact (noted y before).trans why
    cases turn with
    | rest => exact ⟨.inr ⟨unowned, idle, hangs, noted⟩, rfl⟩
    | take event inside waits goesOn => exact absurd event untaken
    | send event holds goesOn => exact absurd holds idle
    | finish event flies goesOn answered =>
        rw [hangs flies] at answered
        cases answered
    | halt event pool timed unended => exact ⟨.inr ⟨unowned, idle, hangs, late⟩, rfl⟩
    | lapse event tasks timed unended => exact ⟨.inr ⟨unowned, idle, hangs, noted⟩, rfl⟩
    | unwind event inside stopped unended queued =>
        refine ⟨.inr ⟨unowned, nofun, nofun, ?_⟩, rfl⟩
        intro x unwound
        simp only [Job.unwind] at unwound
        split at unwound
        · exact late x unwound
        · exact noted x unwound
    | strike event tasks unended => exact ⟨.inr ⟨unowned, idle, hangs, noted⟩, rfl⟩

/-- Does nothing more come of any chunk? -/
def Still (s : Setting) (c : Course) : Prop := ∀ i < s.count, Parked s i (c.jobs i)

theorem Orderly.still (h : c.Orderly s) (quiet : c.IsQuiet s) : c.Still s := by
  intro i inside
  have taken := h.taken_iff quiet inside
  have unnoted (unended : (c.jobs i).phase ≠ .ended) : (c.jobs i).outcome = none :=
    (h.jobs i).outcome_eq_none ⟨unended, h.calm i⟩
  cases phase : (c.jobs i).phase with
  | waiting =>
      have unserved : s.leavesSlot i ≠ true := fun slot => taken.mpr slot phase
      refine .inr ⟨if_neg unserved, by simp [phase], by simp [phase], ?_⟩
      simp [unnoted (by simp [phase])]
  | holding => exact absurd phase (h.not_holding quiet inside)
  | flying =>
      have hangs := h.result_eq_none quiet inside phase
      refine .inr ⟨?_, by simp [phase], fun _ => hangs, ?_⟩
      · rw [Setting.own, hangs, ite_self]
      · simp [unnoted (by simp [phase])]
  | ended =>
      obtain ⟨x, noted⟩ :=
        Option.isSome_iff_exists.mp ((h.jobs i).noted phase (by simp [h.calm i]))
      have own : s.own i = some x := by
        rw [Setting.own, if_pos (taken.mp (by simp [phase])), (h.own_of_calm h.calm noted).2.2]
      exact .inl ⟨phase, by simp [own], by rw [own, noted]⟩

/-- As long as no chunk takes a slot, this stays, and nothing is sent. -/
theorem Execution.still (run : Execution s c es d) (untaken : ∀ i, .take i ∉ es)
    (h : c.Still s) : d.Still s ∧ ∀ i < s.count, d.sent.count i = c.sent.count i := by
  induction run with
  | refl => exact ⟨h, fun _ _ => rfl⟩
  | @tail d d' es e _ step ih =>
      obtain ⟨enabled, rfl⟩ := step
      obtain ⟨still, sent⟩ := ih fun i mem => untaken i (List.mem_append_left _ mem)
      have turned (i : Nat) (inside : i < s.count) :=
        (still i inside).turn (turn_next enabled i) (by rintro rfl; exact untaken i (by simp))
      exact ⟨fun i inside => (turned i inside).1,
        fun i inside => (turned i inside).2.trans (sent i inside)⟩

/-- Has every chunk that has not ended been given up? -/
def IsGivenUp (s : Setting) (c : Course) : Prop :=
  ∀ i < s.count, (c.jobs i).phase = .ended ∨ (c.jobs i).stop.isSome = true

instance (s : Setting) (c : Course) : Decidable (c.IsGivenUp s) :=
  inferInstanceAs (Decidable (∀ i < s.count, _ ∨ _))

theorem IsGivenUp.next (h : c.IsGivenUp s) (enabled : c.Enabled s e) :
    (c.next s e).IsGivenUp s := by
  intro i inside
  rcases h i inside with ended | stopped
  · obtain ⟨_, same⟩ := (turn_next enabled i).eq_of_ended ended
    rw [same]
    exact .inl ended
  · exact .inr ((turn_next enabled i).isSome_stop stopped)

/-- A call in which no chunk takes a slot any more. The slots of a pool are taken for good. Tasks
may give slots back, but those that wait have been given up. -/
def IsShut (s : Setting) (c : Course) : Prop :=
  match s.style with
  | .pool => (∃ i < s.count, (c.jobs i).phase = .waiting) → ¬ c.HasRoom s
  | .tasks => c.IsGivenUp s

theorem IsShut.untaken (h : c.IsShut s) (i : Nat) : ¬ c.Enabled s (.take i) := by
  rintro ⟨inside, waits, goesOn, room, _⟩
  unfold IsShut at h
  split at h
  · exact h ⟨i, inside, waits⟩ room
  · next tasks =>
    rcases h i inside with ended | stopped
    · rw [waits] at ended
      cases ended
    · rcases goesOn with unstopped | pool
      · rw [unstopped] at stopped
        cases stopped
      · rw [tasks] at pool
        cases pool

theorem IsShut.next (h : c.IsShut s) (still : c.Still s) (enabled : c.Enabled s e) :
    (c.next s e).IsShut s := by
  unfold IsShut at h ⊢
  split at h
  · next pool =>
    rintro ⟨i, inside, waits⟩ room
    refine h ⟨i, inside, (turn_next enabled i).waiting waits⟩ ?_
    -- Who has a slot hangs in a pool, and keeps it.
    have kept : c.holders s ⊆ (c.next s e).holders s := by
      intro k mem
      obtain ⟨within, holds⟩ := List.mem_filter.mp mem
      refine List.mem_filter.mpr ⟨within, ?_⟩
      have within := List.mem_range.mp within
      rcases still k within with ⟨ended, _⟩ | ⟨_, _, hangs, _⟩
      · rw [ended] at holds
        cases holds
      · exact (turn_next enabled k).holdsSlot_of_pool pool holds hangs
    have length : (c.holders s).length ≤ ((c.next s e).holders s).length :=
      (List.subperm_of_subset (List.nodup_range.filter _) kept).length_le
    unfold HasRoom at room ⊢
    split
    · trivial
    · next n slots =>
      rw [slots] at room
      have : ((c.next s e).holders s).length < n := room
      omega
  · exact IsGivenUp.next h enabled

/-- Then nothing is taken, and nothing is sent. -/
theorem Execution.shut (run : Execution s c es d) (h : c.IsShut s) (still : c.Still s) :
    d.Still s ∧ ∀ i < s.count, d.sent.count i = c.sent.count i := by
  have untaken : (∀ i, .take i ∉ es) ∧ d.IsShut s := by
    induction run with
    | refl => exact ⟨by simp, h⟩
    | @tail d d' es e run step ih =>
        obtain ⟨enabled, rfl⟩ := step
        obtain ⟨untaken, shut⟩ := ih
        have before := (run.still untaken still).1
        refine ⟨?_, shut.next before enabled⟩
        intro i mem
        rcases List.mem_append.mp mem with mem | mem
        · exact untaken i mem
        · obtain rfl := List.mem_singleton.mp mem
          exact shut.untaken i enabled
  exact run.still untaken.1 still

/-- A call that comes as far as it can before the deadline, while the timers of its chunks go off,
and afterwards. No slot that a task gives back is taken before the timers of all have gone off. -/
structure Elapses (s : Setting) (early timers rest : List Event) (d d' e : Course) : Prop where
  before : Execution s .initial early d
  moves : ∀ e ∈ early, e.isMove = true
  quiet : d.IsQuiet s
  during : Execution s d timers d'
  untaken : s.style = .tasks → (∀ i, .take i ∉ timers) ∧ d'.IsGivenUp s
  after : Execution s d' rest e
  uncancelled : .cancel ∉ timers ++ rest

section Elapses

variable {early timers rest : List Event} {g : Course} (h : Elapses s early timers rest d d' g)

include h in
theorem Elapses.run : Execution s .initial (early ++ timers ++ rest) g :=
  (h.before.append h.during).append h.after

include h in
/-- From the deadline on, nothing more comes of any chunk, and nothing is sent. -/
theorem Elapses.still (quiet : d.Still s) (full : s.style = .pool → d.IsShut s) :
    g.Still s ∧ ∀ i < s.count, g.sent.count i = d.sent.count i := by
  cases style : s.style with
  | pool => exact (h.during.append h.after).shut (full style) quiet
  | tasks =>
      obtain ⟨untaken, givenUp⟩ := h.untaken style
      obtain ⟨still, sent⟩ := h.during.still untaken quiet
      have shut : d'.IsShut s := by
        rwa [IsShut, style]
      obtain ⟨still, sent'⟩ := h.after.shut shut still
      exact ⟨still, fun i inside => (sent' i inside).trans (sent i inside)⟩

include h in
/-- With slots in turn, the chunks that are sent are those that are left one. -/
theorem Elapses.still_and_sent (inTurn : s.inTurn = true) :
    g.Still s ∧ ∀ i < s.count, i ∈ g.sent ↔ s.leavesSlot i = true := by
  have orderly := h.before.orderly inTurn h.moves (.initial s)
  have full (pool : s.style = .pool) : d.IsShut s := by
    rw [IsShut, pool]
    exact orderly.not_hasRoom h.quiet
  obtain ⟨still, sent⟩ := h.still (orderly.still h.quiet) full
  refine ⟨still, fun i inside => ?_⟩
  rw [← List.one_le_count_iff, sent i inside, List.one_le_count_iff,
    orderly.mem_sent_iff h.quiet inside]

include h in
theorem Elapses.isUncancelled : g.Uncancelled := by
  refine h.run.uncancelled ?_ .initial
  rw [List.append_assoc, List.mem_append, not_or]
  exact ⟨fun mem => Bool.false_ne_true (h.moves _ mem), h.uncancelled⟩

end Elapses

theorem Still.not_holding (h : c.Still s) (i : Nat) (inside : i < s.count) :
    (c.jobs i).phase ≠ .holding := by
  rcases h i inside with ⟨ended, _⟩ | ⟨_, idle, _⟩
  · simp [ended]
  · exact idle

/-- When the call goes on with outcomes, they are the final ones. -/
theorem Still.outcomes_eq (h : c.Still s) (settled : c.IsSettled s) :
    c.outcomes s = (List.range s.count).map s.final := by
  apply List.map_congr_left
  intro i inside
  have inside := List.mem_range.mp inside
  obtain ⟨x, noted⟩ := Option.isSome_iff_exists.mp (settled i inside)
  rw [Setting.final]
  rcases h i inside with ⟨_, own, same⟩ | ⟨unowned, _, _, late⟩
  · obtain ⟨y, own⟩ := Option.isSome_iff_exists.mp own
    rw [same, own, Option.some_or]
  · rw [noted, unowned, Option.none_or, late x noted]

/-! ## The call has gone on -/

/-- A call that has gone on with an outcome for each chunk, while no request is still to be sent. -/
structure Closed (s : Setting) (c : Course) (x : Ending) : Prop where
  ending : c.ending = some x
  noted : c.IsSettled s
  launched : ∀ i < s.count, (c.jobs i).phase = .flying ∨ (c.jobs i).phase = .ended

theorem Closed.next {x : Ending} (h : c.Closed s x) (enabled : c.Enabled s e) :
    (c.next s e).Closed s x ∧ (∀ i, e ≠ .take i ∧ e ≠ .send i) ∧
      (c.next s e).outcomes s = c.outcomes s := by
  have idle (i : Nat) : e ≠ .take i ∧ e ≠ .send i := by
    constructor
    · rintro rfl
      obtain ⟨inside, waits, _⟩ := enabled
      rcases h.launched i inside with flies | ended
      · simp [waits] at flies
      · simp [waits] at ended
    · rintro rfl
      obtain ⟨inside, holds, _⟩ := enabled
      rcases h.launched i inside with flies | ended
      · simp [holds] at flies
      · simp [holds] at ended
  have kept (i : Nat) (inside : i < s.count) :
      ((c.next s e).jobs i).outcome = (c.jobs i).outcome := by
    obtain ⟨y, noted⟩ := Option.isSome_iff_exists.mp (h.noted i inside)
    rw [noted]
    exact (turn_next enabled i).outcome_eq noted
  refine ⟨⟨ending_next enabled h.ending, ?_, ?_⟩, idle, ?_⟩
  · intro i inside
    rw [kept i inside]
    exact h.noted i inside
  · intro i inside
    exact (turn_next enabled i).launched (idle i).1 (h.launched i inside)
  · exact List.map_congr_left fun i inside => kept i (List.mem_range.mp inside)

/-- Whatever happens after a call has gone on, no chunk starts, and the outcomes stay. -/
theorem Execution.closed {x : Ending} (run : Execution s c es d) (h : c.Closed s x) :
    d.Closed s x ∧ (∀ i, .take i ∉ es ∧ .send i ∉ es) ∧ d.sent = c.sent ∧
      d.outcomes s = c.outcomes s := by
  induction run with
  | refl => exact ⟨h, by simp, rfl, rfl⟩
  | @tail d d' es e _ step ih =>
      obtain ⟨enabled, rfl⟩ := step
      obtain ⟨closed, idle, sent, outcomes⟩ := ih
      obtain ⟨closed', idle', outcomes'⟩ := closed.next enabled
      refine ⟨closed', ?_, ?_, outcomes'.trans outcomes⟩
      · intro i
        simp only [List.mem_append, List.mem_singleton, not_or]
        exact ⟨⟨(idle i).1, fun same => (idle' i).1 same.symm⟩,
          ⟨(idle i).2, fun same => (idle' i).2 same.symm⟩⟩
      · rw [sent_next s d fun i => (idle' i).2, sent]

/-- A call that nobody has cancelled and that has gone on with outcomes is closed, if no request
was about to be sent. -/
theorem Sound.closed (h : c.Sound s) (uncancelled : c.Uncancelled) {os : List ChunkOutcome}
    (ending : c.ending = some (.settled os)) (settled : c.IsSettled s)
    (idle : ∀ i < s.count, (c.jobs i).phase ≠ .holding) : c.Closed s (.settled os) := by
  refine ⟨ending, settled, ?_⟩
  intro i inside
  cases phase : (c.jobs i).phase with
  | flying => exact .inl rfl
  | ended => exact .inr rfl
  | holding => exact absurd phase (idle i inside)
  | waiting =>
      obtain ⟨x, noted⟩ := Option.isSome_iff_exists.mp (settled i inside)
      rcases (h.jobs i).outcome x noted with ⟨ended, _⟩ | ⟨_, _, pool | ended⟩
      · simp [phase] at ended
      · have gathered := uncancelled.ending _ ending
        exact absurd phase (h.queue pool (by simp [gathered]) i inside)
      · simp [phase] at ended

end Course

end EthBatch.Schedule
