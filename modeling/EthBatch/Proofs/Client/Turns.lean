import EthBatch.Proofs.Client.Progress

/-!
# Slots in the order of the chunks

A request that hangs keeps its slot. When slots are handed out in the order of the chunks, the
requests may be sent and answered in any order: once nothing can happen any more but the deadline,
the chunks that were sent are those that are left a slot by the hanging ones before them.
`Course.Orderly` states what carries this: the chunks that have taken a slot stand before those that
wait, and each of them was left a slot.
-/

namespace EthBatch.Schedule

namespace Setting

/-- How many of the first chunks have a request of which nothing comes. -/
def hanging (s : Setting) (i : Nat) : Nat :=
  ((List.range i).filter fun k => (s.result k).isNone).length

/-- Do the chunks before it that hang leave a slot for a chunk? -/
def leavesSlot (s : Setting) (i : Nat) : Bool := hasSlot s.slots (s.hanging i)

/-- What comes of a chunk without the deadline, if it gets a slot. -/
def own (s : Setting) (i : Nat) : Option (Except Fault ChunkOutcome) :=
  if s.leavesSlot i then s.result i else none

/-- What comes of a chunk in the end. -/
def final (s : Setting) (i : Nat) : Option (Except Fault ChunkOutcome) :=
  (s.own i).or (s.timedOut i)

end Setting

/-- Is an event a step of a chunk that nobody has given up? -/
def Event.isMove : Event → Bool
  | .take _ | .send _ | .finish _ => true
  | _ => false

theorem Event.stops_eq_false {e : Event} (move : e.isMove = true) : e.stops = false := by
  cases e <;> first | rfl | cases move

namespace Course

variable {s : Setting} {c d : Course} {e : Event} {es : List Event} {i : Nat}

/-- How a call stands while slots are handed out in the order of the chunks. -/
structure Orderly (s : Setting) (c : Course) extends Sound s c where
  calm : c.Calm
  order : ∀ k < s.count, (c.jobs k).phase ≠ .waiting → ∀ i < k, (c.jobs i).phase ≠ .waiting
  served : ∀ i < s.count, (c.jobs i).phase ≠ .waiting → s.leavesSlot i = true

theorem Orderly.initial (s : Setting) : initial.Orderly s where
  toSound := .initial s
  calm _ := rfl
  order _ _ taken := absurd rfl taken
  served _ _ taken := absurd rfl taken

/-- The requests that hang before a chunk take no more slots than there are holders, if all chunks
before it have taken a slot. -/
theorem Orderly.hanging_le (h : c.Orderly s) (inside : i < s.count)
    (taken : ∀ k < i, (c.jobs k).phase ≠ .waiting) : s.hanging i ≤ (c.holders s).length := by
  have held : (List.range i).filter (fun k => (s.result k).isNone) ⊆ c.holders s := by
    intro k mem
    obtain ⟨before, hangs⟩ := List.mem_filter.mp mem
    have before := List.mem_range.mp before
    refine List.mem_filter.mpr ⟨List.mem_range.mpr (Nat.lt_trans before inside), ?_⟩
    cases phase : (c.jobs k).phase with
    | waiting => exact absurd phase (taken k before)
    | holding => rfl
    | flying => rfl
    | ended =>
        -- A chunk that has ended was answered.
        have noted := (h.jobs k).noted phase (by simp [h.calm k])
        obtain ⟨x, noted⟩ := Option.isSome_iff_exists.mp noted
        rw [(h.own_of_calm h.calm noted).2.2] at hangs
        cases hangs
  exact (List.subperm_of_subset (List.nodup_range.filter _) held).length_le

/-- A chunk that takes a slot in its turn was left one. -/
theorem Orderly.leavesSlot (h : c.Orderly s) (inTurn : s.inTurn = true)
    (enabled : c.Enabled s (.take i)) :
    s.leavesSlot i = true ∧ ∀ k < i, (c.jobs k).phase ≠ .waiting := by
  obtain ⟨inside, _, _, room, turn⟩ := enabled
  have taken (k : Nat) (before : k < i) : (c.jobs k).phase ≠ .waiting := by
    intro waits
    exact turn inTurn k before waits (.inl (h.calm k))
  refine ⟨?_, taken⟩
  have hanging := h.hanging_le inside taken
  unfold Setting.leavesSlot hasSlot
  unfold HasRoom at room
  split
  · rfl
  · next n slots =>
    rw [slots] at room
    have : (c.holders s).length < n := room
    simp only [decide_eq_true_eq]
    omega

/-- The moves of chunks, with slots handed out in turn, keep a call orderly. -/
theorem Orderly.next (h : c.Orderly s) (inTurn : s.inTurn = true) (enabled : c.Enabled s e)
    (move : e.isMove = true) : (c.next s e).Orderly s where
  toSound := h.toSound.next enabled
  calm i := by rw [(turn_next enabled i).stop_eq (Event.stops_eq_false move), h.calm i]
  order := by
    intro k inside taken i before still
    have waits := (turn_next enabled i).waiting still
    by_cases earlier : (c.jobs k).phase = .waiting
    · obtain rfl := (turn_next enabled k).take_of_waiting earlier taken (h.calm k)
      exact (h.leavesSlot inTurn enabled).2 i before waits
    · exact h.order k inside earlier i before waits
  served := by
    intro i inside taken
    by_cases earlier : (c.jobs i).phase = .waiting
    · obtain rfl := (turn_next enabled i).take_of_waiting earlier taken (h.calm i)
      exact (h.leavesSlot inTurn enabled).1
    · exact h.served i inside earlier

/-- Slots in turn and requests and answers in any order keep a call orderly. -/
theorem Execution.orderly (run : Execution s c es d) (inTurn : s.inTurn = true)
    (moves : ∀ e ∈ es, e.isMove = true) (h : c.Orderly s) : d.Orderly s := by
  induction run with
  | refl => exact h
  | tail _ step ih =>
      obtain ⟨enabled, rfl⟩ := step
      exact (ih fun e mem => moves e (List.mem_append_left _ mem)).next inTurn enabled
        (moves _ (by simp))

/-! ## Nothing more before the deadline -/

/-- No chunk can move any more: whoever could take a slot has one, and whatever is answered is
answered. -/
def IsQuiet (s : Setting) (c : Course) : Prop := ∀ e, e.isMove = true → ¬ c.Enabled s e

theorem isQuiet_iff : c.IsQuiet s ↔ ∀ i < s.count,
    ¬ c.Enabled s (.take i) ∧ ¬ c.Enabled s (.send i) ∧ ¬ c.Enabled s (.finish i) := by
  constructor
  · intro quiet i _
    exact ⟨quiet _ rfl, quiet _ rfl, quiet _ rfl⟩
  · intro idle e move enabled
    cases e with
    | take i => exact (idle i enabled.1).1 enabled
    | send i => exact (idle i enabled.1).2.1 enabled
    | finish i => exact (idle i enabled.1).2.2 enabled
    | _ => cases move

instance (s : Setting) (c : Course) : Decidable (c.IsQuiet s) := decidable_of_iff _ isQuiet_iff.symm

section Quiet

variable (h : c.Orderly s) (quiet : c.IsQuiet s)

include h quiet in
theorem Orderly.not_holding (inside : i < s.count) : (c.jobs i).phase ≠ .holding := by
  intro holds
  exact quiet (.send i) rfl ⟨inside, holds, .inl (h.calm i)⟩

include h quiet in
theorem Orderly.result_eq_none (inside : i < s.count) (flies : (c.jobs i).phase = .flying) :
    s.result i = none := by
  cases result : s.result i with
  | none => rfl
  | some x =>
      exact absurd ⟨inside, flies, .inl (h.calm i), Option.isSome_iff_exists.mpr ⟨x, result⟩⟩
        (quiet (.finish i) rfl)

include h quiet in
/-- The first chunk that waits would take a slot if there were one, so all slots are taken. -/
theorem Orderly.not_hasRoom (waits : ∃ i, i < s.count ∧ (c.jobs i).phase = .waiting) :
    ¬ c.HasRoom s := by
  intro room
  obtain ⟨inside, idle⟩ := Nat.find_spec waits
  refine quiet (.take (Nat.find waits)) rfl ⟨inside, idle, .inl (h.calm _), room, ?_⟩
  intro _ k before waiting
  exact absurd ⟨Nat.lt_trans before inside, waiting⟩ (Nat.find_min waits before)

include h quiet in
/-- Then a chunk has taken a slot if and only if it is left one. -/
theorem Orderly.taken_iff (inside : i < s.count) :
    (c.jobs i).phase ≠ .waiting ↔ s.leavesSlot i = true := by
  constructor
  · exact h.served i inside
  · intro slot waits
    have full := h.not_hasRoom quiet ⟨i, inside, waits⟩
    -- Those that take the slots hang, and stand before the chunk.
    have held : c.holders s ⊆ (List.range i).filter fun k => (s.result k).isNone := by
      intro k mem
      obtain ⟨within, holds⟩ := List.mem_filter.mp mem
      have within := List.mem_range.mp within
      have flies : (c.jobs k).phase = .flying := by
        cases phase : (c.jobs k).phase with
        | flying => rfl
        | holding => exact absurd phase (h.not_holding quiet within)
        | waiting => simp [phase, Phase.holdsSlot] at holds
        | ended => simp [phase, Phase.holdsSlot] at holds
      refine List.mem_filter.mpr ⟨List.mem_range.mpr ?_, ?_⟩
      · by_contra behind
        rcases Nat.lt_or_eq_of_le (Nat.not_lt.mp behind) with behind | same
        · exact h.order k within (by simp [flies]) i behind waits
        · rw [same, flies] at waits
          cases waits
      · rw [h.result_eq_none quiet within flies]
        rfl
    have length : (c.holders s).length ≤ s.hanging i :=
      (List.subperm_of_subset (List.nodup_range.filter _) held).length_le
    unfold Setting.leavesSlot hasSlot at slot
    unfold HasRoom at full
    split at slot
    · next slots => simp [slots] at full
    · next n slots =>
      simp only [slots] at full
      have slot := of_decide_eq_true slot
      omega

include h quiet in
/-- Then a chunk was sent if and only if it is left a slot. -/
theorem Orderly.mem_sent_iff (inside : i < s.count) :
    i ∈ c.sent ↔ s.leavesSlot i = true := by
  rw [← h.taken_iff quiet inside, ← List.one_le_count_iff]
  constructor
  · intro sent waits
    have unsent := (h.jobs i).unsent (.inl waits)
    omega
  · intro taken
    cases phase : (c.jobs i).phase with
    | waiting => exact absurd phase taken
    | holding => exact absurd phase (h.not_holding quiet inside)
    | flying => exact Nat.le_of_eq ((h.jobs i).sent phase).symm
    | ended =>
        obtain ⟨x, noted⟩ :=
          Option.isSome_iff_exists.mp ((h.jobs i).noted phase (by simp [h.calm i]))
        exact Nat.le_of_eq (h.own_of_calm h.calm noted).2.1.symm

end Quiet

/-- While a chunk can move, that brings the end closer, so there comes a time when none can. -/
theorem exists_quiet (s : Setting) (c : Course) : ∃ es d, Execution s c es d ∧
    (∀ e ∈ es, e.isMove = true) ∧ d.IsQuiet s := by
  induction left : c.left s using Nat.strongRecOn generalizing c with
  | ind n ih =>
      by_cases quiet : c.IsQuiet s
      · exact ⟨[], c, .refl c, by simp, quiet⟩
      · simp only [IsQuiet, Classical.not_forall, not_not] at quiet
        obtain ⟨e, move, enabled⟩ := quiet
        have closer := left_next enabled
        obtain ⟨es, d, run, moves, quiet⟩ := ih ((c.next s e).left s) (by omega) _ rfl
        refine ⟨e :: es, d, Execution.append ((Execution.refl c).tail ⟨enabled, rfl⟩) run, ?_,
          quiet⟩
        intro e' mem
        rcases List.mem_cons.mp mem with rfl | mem
        · exact move
        · exact moves e' mem

end Course

end EthBatch.Schedule
