import EthBatch.Client.Interleaving
import EthBatch.Proofs.Client.Schedule
import Mathlib

/-!
# The turns of a chunk

An event changes what has become of a chunk in one of a few ways, which `Turn` lists with all that
makes them possible. What is noted of a chunk is what came of its own request, or that its deadline
has passed, and its request is sent once at most. `Job.Sound` states this together with what it
rests on, and every turn keeps it. Every turn brings the chunk closer to its end.
-/

namespace EthBatch.Schedule

/-! ## Chunks -/

/-- What an event may make of a chunk, and of the number of its requests. -/
inductive Turn (s : Setting) (i : Nat) (e : Event) : Nat → Job → Nat → Job → Prop where
  | rest {n : Nat} {j : Job} : Turn s i e n j n j
  | take {n : Nat} {j : Job} (event : e = .take i) (inside : i < s.count)
      (waits : j.phase = .waiting) (goesOn : s.GoesOn j) :
      Turn s i e n j n { j with phase := .holding }
  | send {n : Nat} {j : Job} (event : e = .send i) (holds : j.phase = .holding)
      (goesOn : s.GoesOn j) : Turn s i e n j (n + 1) { j with phase := .flying }
  | finish {n : Nat} {j : Job} (event : e = .finish i) (flies : j.phase = .flying)
      (goesOn : s.GoesOn j) (answered : (s.result i).isSome = true) :
      Turn s i e n j n { j with phase := .ended, outcome := j.outcome.or (s.result i) }
  | halt {n : Nat} {j : Job} (event : e = .look) (pool : s.style = .pool)
      (timed : s.seconds.isSome = true) (unended : j.IsOpen) :
      Turn s i e n j n { j with stop := some .late, outcome := j.outcome.or (s.timedOut i) }
  | lapse {n : Nat} {j : Job} (event : e = .lapse i) (tasks : s.style = .tasks)
      (timed : s.seconds.isSome = true) (unended : j.IsOpen) :
      Turn s i e n j n { j with stop := some .late }
  | unwind {n : Nat} {j : Job} (event : e = .unwind i) (inside : i < s.count)
      (stopped : j.stop.isSome = true) (unended : j.phase ≠ .ended)
      (queued : s.style = .pool → j.phase = .waiting) :
      Turn s i e n j n (j.unwind (s.timedOut i))
  | strike {n : Nat} {j : Job} (event : e = .cancel ∨ e = .hail i) (tasks : s.style = .tasks)
      (unended : j.phase ≠ .ended) : Turn s i e n j n { j with stop := some .cancelled }

/-- What is known of a chunk for which so many requests were sent. -/
structure Job.Sound (s : Setting) (i requests : Nat) (j : Job) : Prop where
  outside : s.count ≤ i → j.phase = .waiting
  unsent : j.phase = .waiting ∨ j.phase = .holding → requests = 0
  sent : j.phase = .flying → requests = 1
  once : requests ≤ 1
  outcome : ∀ x, j.outcome = some x →
    (j.phase = .ended ∧ requests = 1 ∧ s.result i = some x) ∨
    (j.stop = some .late ∧ s.timedOut i = some x ∧ (s.style = .pool ∨ j.phase = .ended))
  noted : j.phase = .ended → j.stop ≠ some .cancelled → j.outcome.isSome = true
  halted : s.style = .pool → j.stop ≠ none → j.stop = some .late ∧ j.outcome.isSome = true
  timed : j.stop = some .late → s.seconds.isSome = true

theorem Job.Sound.initial (s : Setting) (i : Nat) :
    (Course.initial.jobs i).Sound s i 0 := by
  constructor <;> simp [Course.initial]

/-- If something is noted of a chunk before it ends, a pool has given it up. -/
theorem Job.Sound.late_of_noted {s : Setting} {i n : Nat} {j : Job} (h : j.Sound s i n)
    (unended : j.phase ≠ .ended) {x : Except Fault ChunkOutcome} (noted : j.outcome = some x) :
    j.stop = some .late ∧ s.timedOut i = some x ∧ s.style = .pool := by
  rcases h.outcome x noted with ⟨ended, _⟩ | ⟨late, timedOut, pool | ended⟩
  · exact absurd ended unended
  · exact ⟨late, timedOut, pool⟩
  · exact absurd ended unended

/-- What is noted when a chunk ends is new, or was noted when a pool gave it up. -/
theorem Job.Sound.or_cases {s : Setting} {i n : Nat} {j : Job} (h : j.Sound s i n)
    (unended : j.phase ≠ .ended) {o : Option (Except Fault ChunkOutcome)}
    {x : Except Fault ChunkOutcome} (noted : j.outcome.or o = some x) :
    o = some x ∨ (j.stop = some .late ∧ s.timedOut i = some x) := by
  cases before : j.outcome with
  | none =>
      rw [before, Option.none_or] at noted
      exact .inl noted
  | some y =>
      rw [before, Option.some_or] at noted
      obtain ⟨late, timedOut, _⟩ := h.late_of_noted unended before
      exact .inr ⟨late, timedOut.trans noted⟩

/-- A chunk that still has its own end before it has no outcome. -/
theorem Job.Sound.outcome_eq_none {s : Setting} {i n : Nat} {j : Job} (h : j.Sound s i n)
    (unended : j.IsOpen) : j.outcome = none := by
  rw [Option.eq_none_iff_forall_ne_some]
  intro x noted
  have late := (h.late_of_noted unended.1 noted).1
  rw [unended.2] at late
  cases late

theorem isSome_timedOut {s : Setting} (timed : s.seconds.isSome = true) (i : Nat) :
    (s.timedOut i).isSome = true := by
  rwa [Setting.timedOut, Option.isSome_map]

/-- What is known of a chunk stays known. -/
theorem Job.Sound.turn {s : Setting} {e : Event} {i n n' : Nat} {j j' : Job} (h : j.Sound s i n)
    (turn : Turn s i e n j n' j') : j'.Sound s i n' := by
  cases turn with
  | rest => exact h
  | take event inside waits goesOn =>
      refine ⟨fun outside => absurd inside (Nat.not_lt.mpr outside), fun _ => h.unsent (.inl waits),
        nofun, h.once, ?_, nofun, h.halted, h.timed⟩
      intro x noted
      obtain ⟨late, timedOut, pool⟩ := h.late_of_noted (by simp [waits]) noted
      exact .inr ⟨late, timedOut, .inl pool⟩
  | send event holds goesOn =>
      have unsent := h.unsent (.inr holds)
      subst unsent
      refine ⟨?_, nofun, fun _ => rfl, Nat.le_refl 1, ?_, nofun, h.halted, h.timed⟩
      · intro outside
        simp [h.outside outside] at holds
      · intro x noted
        obtain ⟨late, timedOut, pool⟩ := h.late_of_noted (by simp [holds]) noted
        exact .inr ⟨late, timedOut, .inl pool⟩
  | finish event flies goesOn answered =>
      refine ⟨?_, nofun, nofun, h.once, ?_, ?_, ?_, h.timed⟩
      · intro outside
        simp [h.outside outside] at flies
      · intro x noted
        rcases h.or_cases (by simp [flies]) noted with own | ⟨late, timedOut⟩
        · exact .inl ⟨rfl, h.sent flies, own⟩
        · exact .inr ⟨late, timedOut, .inr rfl⟩
      · intro _ _
        simp [answered]
      · intro pool stopped
        obtain ⟨late, noted⟩ := h.halted pool stopped
        exact ⟨late, by simp [noted]⟩
  | halt event pool timed unended =>
      have timedOut := isSome_timedOut timed i
      refine ⟨h.outside, h.unsent, h.sent, h.once, ?_, ?_, ?_, fun _ => timed⟩
      · intro x noted
        rw [h.outcome_eq_none unended, Option.none_or] at noted
        exact .inr ⟨rfl, noted, .inl pool⟩
      · intro ended
        exact absurd ended unended.1
      · intro _ _
        exact ⟨rfl, by simp [timedOut]⟩
  | lapse event tasks timed unended =>
      refine ⟨h.outside, h.unsent, h.sent, h.once, ?_, ?_, ?_, fun _ => timed⟩
      · intro x noted
        rw [h.outcome_eq_none unended] at noted
        cases noted
      · intro ended
        exact absurd ended unended.1
      · intro pool
        rw [tasks] at pool
        cases pool
  | unwind event inside stopped unended queued =>
      refine ⟨fun outside => absurd inside (Nat.not_lt.mpr outside), nofun, nofun, h.once, ?_, ?_,
        ?_, h.timed⟩
      · intro x noted
        simp only [Job.unwind] at noted
        split at noted
        · next late =>
          rcases h.or_cases unended noted with timedOut | ⟨_, timedOut⟩
          · exact .inr ⟨late, timedOut, .inr rfl⟩
          · exact .inr ⟨late, timedOut, .inr rfl⟩
        · next early =>
          exact absurd (h.late_of_noted unended noted).1 early
      · intro _ uncancelled
        have late : j.stop = some .late := by
          cases stop : j.stop with
          | none => simp [stop] at stopped
          | some why =>
              cases why with
              | late => rfl
              | cancelled => exact absurd stop uncancelled
        simp [Job.unwind, late, isSome_timedOut (h.timed late) i]
      · intro pool given
        obtain ⟨late, noted⟩ := h.halted pool given
        exact ⟨late, by simp [Job.unwind, late, noted]⟩
  | strike event tasks unended =>
      refine ⟨h.outside, h.unsent, h.sent, h.once, ?_, ?_, ?_, nofun⟩
      · intro x noted
        obtain ⟨_, _, pool⟩ := h.late_of_noted unended noted
        rw [tasks] at pool
        cases pool
      · intro ended
        exact absurd ended unended
      · intro pool
        rw [tasks] at pool
        cases pool

section Turn

variable {s : Setting} {e : Event} {i n n' : Nat} {j j' : Job}

/-- What is noted of a chunk is final. -/
theorem Turn.outcome_eq (turn : Turn s i e n j n' j') {x : Except Fault ChunkOutcome}
    (noted : j.outcome = some x) : j'.outcome = some x := by
  cases turn with
  | finish event flies goesOn answered => simp [noted]
  | halt event pool timed unended => simp [noted]
  | unwind event inside stopped unended queued => simp [Job.unwind, noted]
  | _ => exact noted

/-- A chunk that has ended is left alone. -/
theorem Turn.eq_of_ended (turn : Turn s i e n j n' j') (ended : j.phase = .ended) :
    n' = n ∧ j' = j := by
  cases turn with
  | rest => exact ⟨rfl, rfl⟩
  | take event inside waits goesOn => simp [waits] at ended
  | send event holds goesOn => simp [holds] at ended
  | finish event flies goesOn answered => simp [flies] at ended
  | halt event pool timed unended => exact absurd ended unended.1
  | lapse event tasks timed unended => exact absurd ended unended.1
  | unwind event inside stopped unended queued => exact absurd ended unended
  | strike event tasks unended => exact absurd ended unended

/-- The steps that a chunk has before it at most. -/
def Job.left (j : Job) : Nat :=
  (match j.phase with
    | .waiting => 3
    | .holding => 2
    | .flying => 1
    | .ended => 0) +
  match j.stop with
    | none => 2
    | some .late => 1
    | some .cancelled => 0

/-- Every change of a chunk brings its end closer. -/
theorem Turn.left_lt (turn : Turn s i e n j n' j') (changed : j' ≠ j) : j'.left < j.left := by
  cases turn with
  | rest => exact absurd rfl changed
  | take event inside waits goesOn => simp [Job.left, waits]
  | send event holds goesOn => simp [Job.left, holds]
  | finish event flies goesOn answered => simp [Job.left, flies]
  | halt event pool timed unended => simp [Job.left, unended.2]
  | lapse event tasks timed unended => simp [Job.left, unended.2]
  | unwind event inside stopped unended queued =>
      cases phase : j.phase with
      | ended => exact absurd phase unended
      | _ => simp [Job.left, Job.unwind, phase]
  | strike event tasks unended =>
      cases stop : j.stop with
      | none => simp [Job.left, stop]
      | some why =>
          cases why with
          | late => simp [Job.left, stop]
          | cancelled =>
              obtain ⟨phase, stop', outcome⟩ := j
              exact absurd (by rw [← stop]) changed

theorem Turn.left_le (turn : Turn s i e n j n' j') : j'.left ≤ j.left := by
  by_cases same : j' = j
  · rw [same]
  · exact Nat.le_of_lt (turn.left_lt same)

/-- A chunk does not wait again. -/
theorem Turn.waiting (turn : Turn s i e n j n' j') (waits : j'.phase = .waiting) :
    j.phase = .waiting := by
  cases turn with
  | take event inside waits' goesOn => cases waits
  | send event holds goesOn => cases waits
  | finish event flies goesOn answered => cases waits
  | unwind event inside stopped unended queued => cases waits
  | _ => exact waits

/-- A chunk that nobody has given up leaves the queue by taking a slot. -/
theorem Turn.take_of_waiting (turn : Turn s i e n j n' j') (waits : j.phase = .waiting)
    (left : j'.phase ≠ .waiting) (calm : j.stop = none) : e = .take i := by
  cases turn with
  | take event inside waits' goesOn => exact event
  | send event holds goesOn => simp [waits] at holds
  | finish event flies goesOn answered => simp [waits] at flies
  | unwind event inside stopped unended queued => simp [calm] at stopped
  | _ => exact absurd waits left

/-- A chunk that has been given up stays so. -/
theorem Turn.isSome_stop (turn : Turn s i e n j n' j') (stopped : j.stop.isSome = true) :
    j'.stop.isSome = true := by
  cases turn with
  | halt event pool timed unended => rfl
  | lapse event tasks timed unended => rfl
  | strike event tasks unended => rfl
  | _ => exact stopped

/-- Only a chunk that takes a slot comes to have one. -/
theorem Turn.holdsSlot_or (turn : Turn s i e n j n' j') (holds : j'.phase.holdsSlot = true) :
    j.phase.holdsSlot = true ∨ e = .take i := by
  cases turn with
  | take event inside waits goesOn => exact .inr event
  | send event holding goesOn => simp [holding, Phase.holdsSlot]
  | finish event flies goesOn answered => cases holds
  | unwind event inside stopped unended queued => cases holds
  | _ => exact .inl holds

/-- In a pool a request that hangs keeps its slot. -/
theorem Turn.holdsSlot_of_pool (turn : Turn s i e n j n' j') (pool : s.style = .pool)
    (holds : j.phase.holdsSlot = true)
    (hangs : j.phase = .flying → s.result i = none) : j'.phase.holdsSlot = true := by
  cases turn with
  | take event inside waits goesOn => rfl
  | send event holding goesOn => rfl
  | finish event flies goesOn answered =>
      rw [hangs flies] at answered
      cases answered
  | unwind event inside stopped unended queued =>
      rw [queued pool] at holds
      cases holds
  | _ => exact holds

/-- A chunk whose request was sent stays so, unless another slot is taken for it. -/
theorem Turn.launched (turn : Turn s i e n j n' j') (untaken : e ≠ .take i)
    (launched : j.phase = .flying ∨ j.phase = .ended) :
    j'.phase = .flying ∨ j'.phase = .ended := by
  cases turn with
  | take event inside waits goesOn => exact absurd event untaken
  | send event holding goesOn => exact .inl rfl
  | finish event flies goesOn answered => exact .inr rfl
  | unwind event inside stopped unended queued => exact .inr rfl
  | _ => exact launched

/-- Only a cancellation strikes a chunk. -/
theorem Turn.struck_or (turn : Turn s i e n j n' j') (struck : j'.stop = some .cancelled) :
    j.stop = some .cancelled ∨ e = .cancel ∨ e = .hail i := by
  cases turn with
  | halt event pool timed unended => cases struck
  | lapse event tasks timed unended => cases struck
  | strike event tasks unended => exact .inr event
  | _ => exact .inl struck

/-- Does an event give a chunk up? -/
def Event.stops : Event → Bool
  | .look | .lapse _ | .cancel | .hail _ => true
  | _ => false

/-- No other event does. -/
theorem Turn.stop_eq (turn : Turn s i e n j n' j') (goes : e.stops = false) : j'.stop = j.stop := by
  cases turn with
  | halt event pool timed unended => simp [event, Event.stops] at goes
  | lapse event tasks timed unended => simp [event, Event.stops] at goes
  | strike event tasks unended => rcases event with rfl | rfl <;> cases goes
  | _ => rfl

/-- A chunk that has been struck ends by unwinding. -/
theorem Turn.ended_or (turn : Turn s i e n j n' j') (sound : j.Sound s i n)
    (ended : j'.phase = .ended) (struck : j'.stop = some .cancelled) :
    (j.phase = .ended ∧ j.stop = some .cancelled) ∨
      (e = .unwind i ∧ j.stop = some .cancelled) := by
  cases turn with
  | rest => exact .inl ⟨ended, struck⟩
  | take event inside waits goesOn => cases ended
  | send event holds goesOn => cases ended
  | finish event flies goesOn answered =>
      have struck : j.stop = some .cancelled := struck
      rcases goesOn with unstopped | pool
      · rw [unstopped] at struck
        cases struck
      · obtain ⟨late, _⟩ := sound.halted pool (by simp [struck])
        rw [late] at struck
        cases struck
  | halt event pool timed unended => cases struck
  | lapse event tasks timed unended => cases struck
  | unwind event inside stopped unended queued => exact .inr ⟨event, struck⟩
  | strike event tasks unended => exact absurd ended unended

end Turn

/-! ## Calls -/

/-- The chunk of an event, if it is one of a single chunk. -/
def Event.chunk? : Event → Option Nat
  | .take i | .send i | .finish i | .lapse i | .unwind i | .hail i => some i
  | .look | .cancel | .gather | .emerge => none

namespace Course

variable {s : Setting} {c : Course} {e : Event} {i : Nat}

@[simp] theorem put_self (c : Course) (i : Nat) (f : Job → Job) :
    (c.put i f).jobs i = f (c.jobs i) := if_pos rfl

@[simp] theorem put_of_ne (c : Course) {i k : Nat} (f : Job → Job) (other : k ≠ i) :
    (c.put i f).jobs k = c.jobs k := if_neg other

/-- What an event of a chunk does to its chunk, and how it leaves the rest. -/
structure Touches (s : Setting) (c : Course) (e : Event) (i : Nat) (d : Course) : Prop where
  here : Turn s i e (c.sent.count i) (c.jobs i) (d.sent.count i) (d.jobs i)
  changed : d.jobs i ≠ c.jobs i
  inside : i < s.count
  others : ∀ k ≠ i, d.jobs k = c.jobs k ∧ d.sent.count k = c.sent.count k
  isPassedOn : d.isPassedOn = c.isPassedOn
  gathered : d.gathered = c.gathered
  ending : d.ending = c.ending

/-- Changing a job touches its chunk, whatever leaves the task. -/
theorem touches_put (f : Job → Job) (inside : i < s.count)
    (here : Turn s i e (c.sent.count i) (c.jobs i) (c.sent.count i) (f (c.jobs i)))
    (changed : f (c.jobs i) ≠ c.jobs i) (x : Option Ending) :
    Touches s c e i { c.put i f with passed := x } where
  here := by
    show Turn s i e _ _ (c.sent.count i) ((c.put i f).jobs i)
    rwa [put_self]
  changed := by
    show (c.put i f).jobs i ≠ c.jobs i
    rwa [put_self]
  inside := inside
  others k other := ⟨put_of_ne c f other, rfl⟩
  isPassedOn := rfl
  gathered := rfl
  ending := rfl

theorem touches_next (enabled : c.Enabled s e) (single : e.chunk? = some i) :
    Touches s c e i (c.next s e) := by
  have moved {phase : Phase} (other : (c.jobs i).phase ≠ phase) {stop : Option Stop}
      {outcome : Option (Except Fault ChunkOutcome)} : ⟨phase, stop, outcome⟩ ≠ c.jobs i := by
    intro same
    exact other (congrArg Job.phase same).symm
  cases e with
  | take k =>
      obtain rfl := Option.some.inj single
      obtain ⟨inside, waits, goesOn, _⟩ := enabled
      exact touches_put (fun j => { j with phase := .holding }) inside
        (.take rfl inside waits goesOn) (moved (by simp [waits])) c.passed
  | send k =>
      obtain rfl := Option.some.inj single
      obtain ⟨inside, holds, goesOn⟩ := enabled
      have job : (c.next s (.send k)).jobs k = { c.jobs k with phase := .flying } :=
        put_self c k fun j => { j with phase := .flying }
      refine ⟨?_, ?_, inside, ?_, rfl, rfl, rfl⟩
      · rw [job, next, List.count_append, List.count_singleton_self]
        exact .send rfl holds goesOn
      · rw [job]
        exact moved (by simp [holds])
      · intro l other
        refine ⟨put_of_ne c (fun j => { j with phase := .flying }) other, ?_⟩
        rw [next, List.count_append, List.count_singleton, if_neg (by simpa using Ne.symm other),
          Nat.add_zero]
  | finish k =>
      obtain rfl := Option.some.inj single
      obtain ⟨inside, flies, goesOn, answered⟩ := enabled
      exact touches_put (fun j => { j with phase := .ended, outcome := j.outcome.or (s.result k) })
        inside (.finish rfl flies goesOn answered) (moved (by simp [flies])) _
  | lapse k =>
      obtain rfl := Option.some.inj single
      obtain ⟨tasks, timed, _, inside, unended⟩ := enabled
      refine touches_put (fun j => { j with stop := some .late }) inside
        (.lapse rfl tasks timed unended) ?_ c.passed
      intro same
      have late := congrArg Job.stop same
      simp [unended.2] at late
  | unwind k =>
      obtain rfl := Option.some.inj single
      obtain ⟨inside, stopped, phase⟩ := enabled
      have unended : (c.jobs k).phase ≠ .ended := by
        rcases phase with waits | ⟨_, unended⟩
        · simp [waits]
        · exact unended
      have queued (pool : s.style = .pool) : (c.jobs k).phase = .waiting := by
        rcases phase with waits | ⟨tasks, _⟩
        · exact waits
        · rw [pool] at tasks
          cases tasks
      simp only [next]
      split
      · exact touches_put _ inside (.unwind rfl inside stopped unended queued)
          (moved unended) _
      · exact touches_put _ inside (.unwind rfl inside stopped unended queued)
          (moved unended) c.passed
  | hail k =>
      obtain rfl := Option.some.inj single
      obtain ⟨tasks, _, inside, unended, unstruck⟩ := enabled
      have struck : (c.jobs k).strike = { c.jobs k with stop := some .cancelled } :=
        if_neg unended
      have here : Turn s k (.hail k) (c.sent.count k) (c.jobs k) (c.sent.count k)
          (c.jobs k).strike :=
        struck ▸ .strike (.inr rfl) tasks unended
      have changed : (c.jobs k).strike ≠ c.jobs k := by
        intro same
        rw [struck] at same
        exact unstruck (congrArg Job.stop same).symm
      simp only [next]
      split
      · exact touches_put _ inside here changed _
      · exact touches_put _ inside here changed c.passed
  | look => cases single
  | cancel => cases single
  | gather => cases single
  | emerge => cases single

/-- Whatever happens, each chunk takes one of its turns. -/
theorem turn_next (enabled : c.Enabled s e) (i : Nat) :
    Turn s i e (c.sent.count i) (c.jobs i) ((c.next s e).sent.count i) ((c.next s e).jobs i) := by
  cases single : e.chunk? with
  | some k =>
      have touches := touches_next enabled single
      by_cases same : i = k
      · exact same ▸ touches.here
      · obtain ⟨job, sent⟩ := touches.others i same
        rw [job, sent]
        exact .rest
  | none =>
      cases e with
      | look =>
          obtain ⟨pool, timed, _⟩ := enabled
          show Turn s i _ _ _ (c.sent.count i) ((c.jobs i).halt (s.timedOut i))
          unfold Job.halt
          split
          · next unended => exact .halt rfl pool timed unended
          · exact .rest
      | cancel =>
          simp only [next]
          split
          · exact .rest
          · dsimp only
            split
            · exact .rest
            · show Turn s i _ _ _ _ (c.jobs i).strike
              unfold Job.strike
              split
              · exact .rest
              · next unended => exact .strike (.inl rfl) enabled.1 unended
      | gather => exact .rest
      | emerge => exact .rest
      | _ => cases single

/-- Only a request that is sent is noted as sent. -/
theorem sent_next (s : Setting) (c : Course) (unsent : ∀ i, e ≠ .send i) :
    (c.next s e).sent = c.sent := by
  cases e with
  | send i => exact absurd rfl (unsent i)
  | unwind i =>
      simp only [next]
      split <;> rfl
  | hail i =>
      simp only [next]
      split <;> rfl
  | cancel =>
      simp only [next]
      split <;> rfl
  | _ => rfl

end Course

end EthBatch.Schedule
