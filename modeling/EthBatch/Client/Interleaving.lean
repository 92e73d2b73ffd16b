import EthBatch.Client.Schedule

/-!
# Interleavings

The chunks of a call run side by side, and nobody decides in which order their requests are made,
sent and answered, nor how fast. Here a call is a state that events change, one chunk at a time as
a rule. `Enabled` says which events are possible, `next` what they do, and `Execution` strings them
together.

A chunk waits for a slot, makes its request while it holds the slot, sends the request, and gives
the slot back when it is answered. The two styles differ in how they give up. A pool is looked at
when the deadline passes: every chunk that has not ended has timed out, whatever still comes of it.
The chunks that wait are taken off the queue one by one; the others go on, and the call does not
wait for them. Tasks have a timer each. A task whose timer goes off is resumed with that, which
unwinds it, and then it gives its slot back; meanwhile the timers of others may not have gone off
yet.

Only tasks can be cancelled. The call passes a cancellation on to them. It reaches a task at once
if there is no deadline, and otherwise when the task that watches the timer is resumed, so that the
chunk may go on for a while. What leaves a task first, a fault or the cancellation, is what the
waiting for all of them comes to, and the call emerges with it, though other tasks may still have to
unwind. When a fault has ended the waiting, nothing is passed on any more, and the other tasks go
on by themselves.
-/

namespace EthBatch.Schedule

/-- How far a chunk has come. -/
inductive Phase where
  /-- It has no slot yet. -/
  | waiting
  /-- It has a slot and makes its request. -/
  | holding
  /-- Its request is in flight. -/
  | flying
  | ended
  deriving DecidableEq, Repr

/-- Does a chunk take up a slot? -/
def Phase.holdsSlot : Phase → Bool
  | .holding | .flying => true
  | .waiting | .ended => false

/-- Why a chunk is given up. -/
inductive Stop where
  | late
  | cancelled
  deriving DecidableEq, Repr

/-- A chunk on its way, with what became of it so far. -/
structure Job where
  phase : Phase
  stop : Option Stop
  outcome : Option (Except Fault ChunkOutcome)

namespace Job

/-- Does nothing keep a chunk from its own end? -/
def IsOpen (j : Job) : Prop := j.phase ≠ .ended ∧ j.stop = none

instance (j : Job) : Decidable j.IsOpen := inferInstanceAs (Decidable (_ ∧ _))

/-- Has a cancellation reached a chunk, unless it has ended? -/
def IsStruck (j : Job) : Prop := j.phase = .ended ∨ j.stop = some .cancelled

instance (j : Job) : Decidable j.IsStruck := inferInstanceAs (Decidable (_ ∨ _))

/-- A pool gives a chunk up and notes that it has timed out. -/
def halt (timedOut : Option (Except Fault ChunkOutcome)) (j : Job) : Job :=
  if j.IsOpen then { j with stop := some .late, outcome := j.outcome.or timedOut } else j

/-- A cancellation reaches a chunk. -/
def strike (j : Job) : Job := if j.phase = .ended then j else { j with stop := some .cancelled }

/-- A chunk ends that was given up. If its deadline has passed, that is noted. -/
def unwind (timedOut : Option (Except Fault ChunkOutcome)) (j : Job) : Job :=
  { j with
    phase := .ended
    outcome := if j.stop = some .late then j.outcome.or timedOut else j.outcome }

end Job

/-- What is fixed for a call: how its chunks run, their sizes, the slots, and what comes of the
request of each chunk; nothing comes of a request that hangs. -/
structure Setting where
  style : Style
  sizes : List Nat
  slots : Option Nat
  result : Nat → Option (Except Fault ChunkOutcome)
  /-- Are slots handed out in the order of the chunks? -/
  inTurn : Bool
  /-- The seconds of the deadline, if there is one. -/
  seconds : Option Value

namespace Setting

/-- The number of chunks. -/
def count (s : Setting) : Nat := s.sizes.length

/-- The outcome of a chunk whose deadline has passed. -/
def late (s : Setting) (i : Nat) (seconds : Value) : ChunkOutcome :=
  .error (Client.located i ((s.sizes[i]?).getD 0) (.timeout seconds))

/-- What is noted of a chunk whose deadline has passed. -/
def timedOut (s : Setting) (i : Nat) : Option (Except Fault ChunkOutcome) :=
  s.seconds.map fun seconds => .ok (s.late i seconds)

/-- Does a chunk go on? A thread of a pool does not notice that it has been given up. -/
def GoesOn (s : Setting) (j : Job) : Prop := j.stop = none ∨ s.style = .pool

instance (s : Setting) (j : Job) : Decidable (s.GoesOn j) := inferInstanceAs (Decidable (_ ∨ _))

end Setting

/-- Something that happens while the chunks of a call run. -/
inductive Event where
  /-- A chunk is given a slot. -/
  | take (chunk : Nat)
  /-- A request is sent. -/
  | send (chunk : Nat)
  /-- A request is answered. -/
  | finish (chunk : Nat)
  /-- The deadline passes for a pool. -/
  | look
  /-- The timer of a task goes off. -/
  | lapse (chunk : Nat)
  /-- A chunk that was given up ends. -/
  | unwind (chunk : Nat)
  /-- The call is cancelled. -/
  | cancel
  /-- The cancellation reaches a task that watches a timer. -/
  | hail (chunk : Nat)
  /-- The waiting for the chunks is over. -/
  | gather
  /-- The call goes on. -/
  | emerge
  deriving DecidableEq, Repr

/-- A call on its way. -/
structure Course where
  jobs : Nat → Job
  /-- The chunks whose requests were sent, in order. -/
  sent : List Nat
  /-- Has a cancellation been passed on to the chunks? -/
  isPassedOn : Bool
  /-- What has left a task, if anything did: a fault or the cancellation, whichever was first. -/
  passed : Option Ending
  /-- What the waiting for the chunks came to, if it is over. -/
  gathered : Option Ending
  /-- With what the call went on, if it did. -/
  ending : Option Ending

namespace Course

/-- A call before anything has happened. -/
def initial : Course :=
  { jobs := fun _ => ⟨.waiting, none, none⟩
    sent := []
    isPassedOn := false
    passed := none
    gathered := none
    ending := none }

/-- What became of the chunks so far. -/
def outcomes (s : Setting) (c : Course) : List (Option (Except Fault ChunkOutcome)) :=
  (List.range s.count).map fun i => (c.jobs i).outcome

/-- The chunks that have a slot. -/
def holders (s : Setting) (c : Course) : List Nat :=
  (List.range s.count).filter fun i => (c.jobs i).phase.holdsSlot

/-- The chunks whose requests are in flight. -/
def flying (s : Setting) (c : Course) : List Nat :=
  (List.range s.count).filter fun i => (c.jobs i).phase = .flying

/-- Is there a slot for one more chunk? -/
def HasRoom (s : Setting) (c : Course) : Prop :=
  match s.slots with
  | none => True
  | some n => (c.holders s).length < n

instance (s : Setting) (c : Course) : Decidable (c.HasRoom s) := by
  unfold HasRoom
  split <;> infer_instance

/-- Have all chunks ended? -/
def IsDone (s : Setting) (c : Course) : Prop := ∀ i < s.count, (c.jobs i).phase = .ended

instance (s : Setting) (c : Course) : Decidable (c.IsDone s) :=
  inferInstanceAs (Decidable (∀ i < s.count, (c.jobs i).phase = .ended))

/-- Need the call not wait for its chunks any longer? A pool is left when no chunk is on the queue
any more, tasks are left when something has left one of them. -/
def IsReady (s : Setting) (c : Course) : Prop :=
  c.IsDone s ∨
  match s.style with
  | .pool => ∀ i < s.count, (c.jobs i).phase = .ended ∨
    ((c.jobs i).stop.isSome = true ∧ (c.jobs i).phase ≠ .waiting)
  | .tasks => c.passed.isSome = true

instance (s : Setting) (c : Course) : Decidable (c.IsReady s) := by
  unfold IsReady
  split <;> infer_instance

/-- Has a cancellation reached all chunks that have not ended? -/
def IsStruck (s : Setting) (c : Course) : Prop := ∀ i < s.count, (c.jobs i).IsStruck

instance (s : Setting) (c : Course) : Decidable (c.IsStruck s) :=
  inferInstanceAs (Decidable (∀ i < s.count, (c.jobs i).IsStruck))

/-- Which events are possible. A call is not resumed before a cancellation that it has passed on has
reached all chunks. -/
def Enabled (s : Setting) (c : Course) : Event → Prop
  | .take i => i < s.count ∧ (c.jobs i).phase = .waiting ∧ s.GoesOn (c.jobs i) ∧ c.HasRoom s ∧
    (s.inTurn = true → ∀ k < i, (c.jobs k).phase = .waiting → ¬ s.GoesOn (c.jobs k))
  | .send i => i < s.count ∧ (c.jobs i).phase = .holding ∧ s.GoesOn (c.jobs i)
  | .finish i => i < s.count ∧ (c.jobs i).phase = .flying ∧ s.GoesOn (c.jobs i) ∧
    (s.result i).isSome = true
  | .look => s.style = .pool ∧ s.seconds.isSome = true ∧ c.ending.isNone = true ∧
    ∃ i < s.count, (c.jobs i).IsOpen
  | .lapse i => s.style = .tasks ∧ s.seconds.isSome = true ∧ c.isPassedOn = false ∧
    i < s.count ∧ (c.jobs i).IsOpen
  | .unwind i => i < s.count ∧ (c.jobs i).stop.isSome = true ∧
    ((c.jobs i).phase = .waiting ∨ (s.style = .tasks ∧ (c.jobs i).phase ≠ .ended))
  | .cancel => s.style = .tasks ∧ c.isPassedOn = false ∧ c.ending.isNone = true
  | .hail i => s.style = .tasks ∧ c.isPassedOn = true ∧ i < s.count ∧
    (c.jobs i).phase ≠ .ended ∧ (c.jobs i).stop ≠ some .cancelled
  | .gather => c.gathered.isNone = true ∧ c.IsReady s
  | .emerge => c.ending.isNone = true ∧ c.gathered.isSome = true ∧
    (c.isPassedOn = true → c.IsStruck s)

instance (s : Setting) (c : Course) (e : Event) : Decidable (c.Enabled s e) := by
  cases e <;> unfold Enabled <;> infer_instance

/-- Changes what has become of a chunk. -/
def put (c : Course) (i : Nat) (f : Job → Job) : Course :=
  { c with jobs := fun k => if k = i then f (c.jobs k) else c.jobs k }

/-- Something leaves a task. -/
def pass (c : Course) (x : Ending) : Course := { c with passed := c.passed.or (some x) }

/-- A task passes on the fault that ends it. -/
def passFault (s : Setting) (c : Course) (i : Nat) : Course :=
  { c with passed := match s.style, s.result i with
    | .tasks, some (.error f) => c.passed.or (some (.escaped f))
    | _, _ => c.passed }

/-- What an event does. -/
def next (s : Setting) (c : Course) : Event → Course
  | .take i => c.put i fun j => { j with phase := .holding }
  | .send i => { c.put i fun j => { j with phase := .flying } with sent := c.sent ++ [i] }
  | .finish i => (c.put i fun j =>
    { j with phase := .ended, outcome := j.outcome.or (s.result i) }).passFault s i
  | .look => { c with jobs := fun i => (c.jobs i).halt (s.timedOut i) }
  | .lapse i => c.put i fun j => { j with stop := some .late }
  | .unwind i =>
    let d := c.put i (Job.unwind (s.timedOut i))
    if (c.jobs i).stop = some .cancelled then d.pass .cancelled else d
  | .cancel =>
    if c.gathered.isSome = true ∨ c.IsDone s then { c with ending := some .cancelled }
    else { c with
      isPassedOn := true
      jobs := if s.seconds.isSome then c.jobs else fun i => (c.jobs i).strike }
  | .hail i =>
    let d := c.put i Job.strike
    if (c.jobs i).stop = some .late then d.pass .cancelled else d
  | .gather => { c with gathered := some (c.passed.getD
      (if c.isPassedOn then .cancelled else Schedule.gather (c.outcomes s))) }
  | .emerge => { c with ending := c.gathered }

/-- An event that is possible, and what it leads to. -/
def Step (s : Setting) (c : Course) (e : Event) (d : Course) : Prop :=
  c.Enabled s e ∧ d = c.next s e

/-- Steps one after the other, with their events. -/
inductive Execution (s : Setting) : Course → List Event → Course → Prop where
  | refl (c : Course) : Execution s c [] c
  | tail {c d d' : Course} {es : List Event} {e : Event} :
      Execution s c es d → Step s d e d' → Execution s c (es ++ [e]) d'

end Course

end EthBatch.Schedule
