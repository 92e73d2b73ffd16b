import EthBatch.Client.Chunk

/-!
# Schedules

The chunks of a call run side by side, at most so many at once. Slots are handed out in the
order of the chunks. A chunk whose request is answered gives its slot back; one whose request
hangs keeps it. So a chunk is sent if and only if fewer chunks before it hang than there are
slots, in whatever order the answers come.

When the deadline passes, every chunk without a result has timed out. The two kinds of clients
get there differently. A pool is looked at once, from outside, and divided into the chunks that
are done and those that are not. Tasks each watch the deadline for themselves.

So much is sent while nobody meets the deadline at an odd moment. If the clock decides about a
chunk, it is sent or not as the clock says.
-/

namespace EthBatch.Schedule

/-- The deadline of a call, with the number of seconds as it was stated. -/
inductive Deadline where
  | never
  /-- No time is left at the start. -/
  | passed (seconds : Value)
  | ahead (seconds : Value)

namespace Deadline

/-- The first whole number that is rounded to no finite floating-point number. -/
def floatBound : Nat := Nat.pow 2 1024 - Nat.pow 2 970

/-- Why a whole number of seconds cannot be waited for. A pool counts nanoseconds in 63 bits, and
reports at once that a deadline passed so long ago, if it can write the number. Tasks count in
floating-point numbers. -/
def refusal? (style : Style) (n : Int) : Option Fault :=
  match style with
  | .pool =>
    if 9223372036 < n then some .tooLarge
    else if Number.isWritable n then none
    else some .badValue
  | .tasks => if floatBound ≤ n.natAbs then some .tooLarge else none

/-- The deadline that a foreign value states. -/
def ofValue (style : Style) (v : Value) : Except Fault Deadline :=
  match v with
  | .null => .ok .never
  | .float x =>
    if style = .pool && 9223372037.0 ≤ x then .error .tooLarge
    else .ok (if x ≤ 0.0 then .passed v else .ahead v)
  | v =>
    match v.number? with
    | none => .error .wrongKind
    | some n =>
      match refusal? style n with
      | some f => .error f
      | none => .ok (if n ≤ 0 then .passed v else .ahead v)

/-- What is decided about the chunks of a run apart from the slots. Nothing is sent when no time is
left. If the deadline lies ahead, the clock may have its say. -/
def decided (style : Style) (clock : Style → Value → Nat → Option Bool) :
    Deadline → Nat → Option Bool
  | .never => fun _ => none
  | .passed _ => fun _ => some false
  | .ahead seconds => clock style seconds

/-- Is it left to the slots which chunks are sent? -/
def Undecided (style : Style) (clock : Style → Value → Nat → Option Bool) (d : Deadline) : Prop :=
  ∀ k, d.decided style clock k = none

theorem ofValue_int {style : Style} {n : Int} (h : refusal? style n = none) :
    ofValue style (.int n) = .ok (if n ≤ 0 then .passed (.int n) else .ahead (.int n)) := by
  simp only [ofValue, Value.number?, h]

end Deadline

/-- The slots that a positive limit comes to. A pool rounds up. Tasks count their free slots down
by one and stop at zero, which they miss unless the limit is whole. -/
def slots (style : Style) : Number.Position → Option Nat
  | .on n => some n.toNat
  | .after n =>
    match style with
    | .pool => some (n.toNat + 1)
    | .tasks => none
  | _ => none

/-- The limit of requests in flight that a foreign value states; zero and less lift it. -/
def limitOfValue (style : Style) (v : Value) : Except Fault (Option Nat) :=
  (v.isAbove 0).map fun above => if above then v.position?.bind (slots style) else none

@[simp] theorem limitOfValue_int (style : Style) (n : Int) :
    limitOfValue style (.int n) = .ok (if 0 < n then some n.toNat else none) := by
  by_cases h : 0 < n <;> simp [limitOfValue, Except.map, Value.position?, slots, h]

/-- Which chunks are sent, given which of them hang. -/
def sent : (slots : Option Nat) → (hangs : List Bool) → List Bool
  | _, [] => []
  | none, _ :: rest => true :: sent none rest
  | some 0, _ :: rest => false :: sent (some 0) rest
  | some (n + 1), h :: rest => true :: sent (some (if h then n else n + 1)) rest

/-- A chunk on its way: its number of calls, what an attempt at it comes to, and whether it is
sent. -/
structure Entry where
  size : Nat
  attempt : Client.Attempt
  isSent : Bool

namespace Entry

/-- The entries of chunks with their attempts. A chunk about which nothing is decided is sent if
there is a slot for it. -/
def ofAttempts (decided : Nat → Option Bool) (limit : Option Nat)
    (attempts : List (Nat × Client.Attempt)) : List Entry :=
  let slots := sent limit (attempts.map fun a => a.2.result.isNone)
  (attempts.zip slots).mapIdx fun i p => ⟨p.1.1, p.1.2, (decided i).getD p.2⟩

/-- What became of a chunk by itself, if anything did. -/
def result (e : Entry) : Option (Except Fault ChunkOutcome) :=
  if e.isSent then e.attempt.result else none

end Entry

/-- The error of a chunk that had no result in time. -/
def timedOut (seconds : Value) (index : Nat) (e : Entry) : ChunkError :=
  Client.located index e.size (.timeout seconds)

/-- How the waiting for all chunks ended. -/
inductive Ending where
  | settled (outcomes : List ChunkOutcome)
  /-- A fault ended the call. -/
  | escaped (cause : Fault)
  | cancelled
  /-- The waiting does not end. -/
  | pending

/-! ## Pools -/

/-- The outcomes of the chunks that are done; the first fault among them ends the call. -/
def done : List (Nat × Entry) → Except Fault (List (Nat × ChunkOutcome))
  | [] => .ok []
  | (i, e) :: rest =>
    match e.result with
    | none => done rest
    | some (.error f) => .error f
    | some (.ok o) => (done rest).map ((i, o) :: ·)

/-- Puts an outcome into the place of each chunk that has none. -/
def fillIn (seconds : Value) (known : List (Nat × ChunkOutcome)) :
    List (Nat × Entry) → List ChunkOutcome :=
  List.map fun (i, e) => (known.lookup i).getD (.error (timedOut seconds i e))

/-- Waits for a pool: looks at it when all chunks are done or the deadline has passed. -/
def awaitPool (deadline : Deadline) (entries : List Entry) : Ending :=
  let numbered := entries.zipIdx.map fun p => (p.2, p.1)
  match deadline with
  | .passed seconds => .settled (fillIn seconds [] numbered)
  | .ahead seconds =>
    match done numbered with
    | .error f => .escaped f
    | .ok known => .settled (fillIn seconds known numbered)
  | .never =>
    if entries.any fun e => e.result.isNone then .pending
    else match done numbered with
      | .error f => .escaped f
      | .ok known => .settled (known.map Prod.snd)

/-! ## Tasks -/

/-- What one task comes to: it watches the deadline and its own chunk. -/
def task (deadline : Deadline) (index : Nat) (e : Entry) : Option (Except Fault ChunkOutcome) :=
  match deadline with
  | .never => e.result
  | .passed seconds => some (.ok (.error (timedOut seconds index e)))
  | .ahead seconds => some (e.result.getD (.ok (.error (timedOut seconds index e))))

/-- Gathers tasks: the first fault ends the waiting, a task without an end keeps it going. -/
def gather : List (Option (Except Fault ChunkOutcome)) → Ending
  | [] => .settled []
  | some (.error f) :: _ => .escaped f
  | none :: rest =>
    match gather rest with
    | .escaped f => .escaped f
    | _ => .pending
  | some (.ok o) :: rest =>
    match gather rest with
    | .settled os => .settled (o :: os)
    | other => other

/-- A call that is cancelled ends so, unless a fault has been met. -/
def Ending.orCancelled : Ending → Ending
  | .escaped f => .escaped f
  | _ => .cancelled

/-- Waits for tasks. -/
def awaitTasks (deadline : Deadline) (cancelled : Bool) (entries : List Entry) : Ending :=
  let ending := gather (entries.zipIdx.map fun p => task deadline p.2 p.1)
  if cancelled then ending.orCancelled else ending

/-! ## Requests -/

/-- The requests that reach the node, by chunk. -/
def requests (entries : List Entry) : List (Nat × Request) :=
  entries.zipIdx.filterMap fun (e, i) =>
    if e.isSent then e.attempt.request.map (i, ·) else none

end EthBatch.Schedule
