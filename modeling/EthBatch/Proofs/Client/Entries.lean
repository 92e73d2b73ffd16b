import EthBatch.Proofs.Client.Run

/-!
# One entry for each call

When failures are allowed and a run returns, its list has one entry for each call, in order. The
entry of a call is decided by the call and by the fate of its own chunk: if the chunk failed, it
is the error of the chunk, with the place and size of the chunk, and otherwise the call is settled
with the answer at its own place in the chunk. The bookkeeping of a run never fails.
-/

namespace EthBatch

namespace Client

variable {c : Client} {node : Node} {items : List CallItem} {options : CallOptions}
variable {cancelAfter : Option Nat} {calls : List Call} {chunks : List (List SubCall)}
variable {r : Route} {limit : Option Nat} {deadline : Schedule.Deadline}
variable {os : List ChunkOutcome} {rs : List CallResult} {allow : Bool}

/-- The outcomes of chunks are their fates. -/
def Fates (c : Client) (node : Node) (chunks : List (List SubCall)) (r : Route)
    (limit : Option Nat) (deadline : Schedule.Deadline) (os : List ChunkOutcome) : Prop :=
  os.length = chunks.length ∧ ∀ k chunk o, chunks[k]? = some chunk → os[k]? = some o →
    Fate deadline.seconds? k chunk.length (c.isSent node r limit chunks deadline k)
      (c.reaction node r k chunk) o

/-- The results are those of the calls, each decided by the call itself and by the fate of its
own chunk. -/
structure Accounted (c : Client) (node : Node) (calls : List Call)
    (chunks : List (List SubCall)) (r : Route) (limit : Option Nat)
    (deadline : Schedule.Deadline) (rs : List CallResult) : Prop where
  length : rs.length = calls.length
  entries : ∃ os, Fates c node chunks r limit deadline os ∧
    ∀ i call, calls[i]? = some call → ∃ k j chunk o verdict result,
      chunks[k]? = some chunk ∧ chunk[j]? = some (.ofCall call) ∧
      i = ((chunks.map List.length).take k).sum + j ∧ os[k]? = some o ∧
      (ChunkOutcome.verdicts chunk.length o)[j]? = some verdict ∧ rs[i]? = some result ∧
      call.Entry verdict result

/-- When the waiting ends well, every chunk has its fate. -/
theorem fates_of_await
    (h : await c.style deadline cancelAfter (c.entriesFor node r limit chunks deadline) =
      .settled os) :
    Fates c node chunks r limit deadline os := by
  have tasks := Schedule.tasks_of_await h
  constructor
  · have := congrArg List.length tasks
    simpa [Schedule.tasks, Schedule.settled] using this.symm
  · intro k chunk o hchunk ho
    have task := getElem?_tasks_entriesFor c node r limit deadline hchunk
    rw [tasks, Schedule.settled, List.getElem?_map, ho] at task
    exact fate_of_task (isSent_of_isOver c node r limit chunks · k) (Option.some.inj task).symm

theorem Fates.fits (h : Fates c node chunks r limit deadline os) :
    ∀ row ∈ (chunks.map List.length).zip os, row.2.Fits row.1 := by
  intro row hrow
  obtain ⟨k, hk⟩ := List.getElem?_of_mem hrow
  rw [List.getElem?_zip_eq_some, List.getElem?_map, Option.map_eq_some_iff] at hk
  obtain ⟨⟨chunk, hchunk, size⟩, ho⟩ := hk
  exact size ▸ (h.2 k chunk row.2 hchunk ho).fits

/-- Reassembly settles each call with the verdict of its own chunk. -/
theorem Fates.reassemble (h : Fates c node chunks r limit deadline os) {o : CallOptions}
    (started : c.Started o calls chunks r limit deadline) :
    reassemble calls (chunks.map List.length) os allow = Reassembly.settleEach allow calls
      (((chunks.map List.length).zip os).flatMap fun row => row.2.verdicts row.1) := by
  refine reassemble_eq h.fits ?_ (by simp [h.1]) started.total
  intro n hn
  obtain ⟨chunk, hchunk, rfl⟩ := List.mem_map.mp hn
  exact started.length_pos hchunk

theorem verdicts_length (fits : ∀ row ∈ (chunks.map List.length).zip os, row.2.Fits row.1)
    (length : os.length = chunks.length) :
    (((chunks.map List.length).zip os).map fun row => row.2.verdicts row.1).map List.length =
      chunks.map List.length := by
  rw [List.map_map]
  refine (List.map_congr_left fun row hrow =>
    ChunkOutcome.length_verdicts (fits row hrow)).trans ?_
  exact List.map_fst_zip (by simp [length])

theorem accounted_of_reassemble (h : Fates c node chunks r limit deadline os) {o : CallOptions}
    (started : c.Started o calls chunks r limit deadline)
    (ok : reassemble calls (chunks.map List.length) os true = .ok rs) :
    Accounted c node calls chunks r limit deadline rs := by
  rw [h.reassemble started, List.flatMap_def] at ok
  have lengths := verdicts_length h.fits h.1
  have total : calls.length = (((chunks.map List.length).zip os).map fun row =>
      row.2.verdicts row.1).flatten.length := by
    rw [List.length_flatten, lengths, started.total]
  refine ⟨Reassembly.length_settleEach ok total, os, h, ?_⟩
  intro i call hcall
  have inside : i < chunks.flatten.length := by
    rw [started.flatten, List.length_map]
    exact (List.getElem?_eq_some_iff.mp hcall).1
  obtain ⟨k, j, chunk, hchunk, hj, place⟩ := Plan.exists_place inside
  have subCall : chunk[j]? = some (.ofCall call) := by
    rw [← Plan.getElem?_flatten hchunk hj, ← place, started.flatten, List.getElem?_map, hcall]
    rfl
  obtain ⟨outcome, ho⟩ : ∃ outcome, os[k]? = some outcome := by
    have inside : k < os.length := h.1 ▸ (List.getElem?_eq_some_iff.mp hchunk).1
    exact ⟨os[k], List.getElem?_eq_getElem inside⟩
  have row : (((chunks.map List.length).zip os).map fun row => row.2.verdicts row.1)[k]? =
      some (outcome.verdicts chunk.length) := by
    simp [List.getElem?_zip_eq_some, hchunk, ho]
  have length := ChunkOutcome.length_verdicts (h.2 k chunk outcome hchunk ho).fits
  have found := Plan.getElem?_flatten row (by omega : j < (outcome.verdicts chunk.length).length)
  rw [lengths, ← place] at found
  obtain ⟨verdict, hverdict⟩ : ∃ v, (outcome.verdicts chunk.length)[j]? = some v :=
    ⟨_, List.getElem?_eq_getElem (by omega)⟩
  obtain ⟨result, hresult, settled⟩ := Reassembly.getElem?_settleEach ok hcall
    (found.trans hverdict)
  exact ⟨k, j, chunk, outcome, verdict, result, hchunk, subCall, place, ho, hverdict, hresult,
    Reassembly.entry_of_settleOne settled⟩

/-- A run that has started ends with no error of its bookkeeping. -/
theorem Started.isInternal [Platform] {e : Error}
    (started : c.Started (options.within c.settings) calls chunks r limit deadline)
    (h : (c.call node (calls.map .call) options cancelAfter).outcome = .raised e) :
    e.isInternal = false := by
  rw [started.outcome_call] at h
  cases ending : await c.style deadline cancelAfter (c.entriesFor node r limit chunks deadline) with
  | settled os =>
      simp only [ending, conclude, (fates_of_await ending).reassemble started] at h
      split at h
      · cases h
      · next error =>
        cases h
        exact Reassembly.isInternal_of_settleEach error
  | escaped f =>
      simp only [ending, conclude] at h
      cases h
      obtain ⟨k, chunk, _, _, fault⟩ := fault_of_await c node r limit ending
      obtain ⟨raw, cause, _, _, _, rfl⟩ := fault_of_settleReaction fault
      rfl
  | cancelled =>
      simp only [ending, conclude] at h
      cases h
      rfl
  | pending =>
      simp only [ending, conclude] at h
      cases h

/-- A list of results that a run returns accounts for every call, if failures are allowed, and no
run ends with an error of its bookkeeping. -/
theorem accounted [Platform] (c : Client) (node : Node) (items : List CallItem)
    (options : CallOptions) (cancelAfter : Option Nat) :
    (∀ rs, options.allowFailure.truthy = true →
      (c.call node items options cancelAfter).outcome = .returned rs →
      (items = [] ∧ rs = []) ∨ ∃ calls chunks r limit deadline, items = calls.map .call ∧
        c.Started (options.within c.settings) calls chunks r limit deadline ∧
        Accounted c node calls chunks r limit deadline rs) ∧
    (∀ got expected, (c.call node items options cancelAfter).outcome ≠
      .raised (.resultsMismatch got expected)) ∧
    (c.call node items options cancelAfter).outcome ≠ .raised (.fault .badIndex) := by
  have external {e : Error} (h : (c.call node items options cancelAfter).outcome = .raised e) :
      e.isInternal = false := by
    rcases started_or_early c node items options cancelAfter with
      ⟨calls, chunks, r, limit, deadline, rfl, started⟩ | ⟨_, nothing⟩ | ⟨e', refused, outside⟩
    · exact started.isInternal h
    · rw [nothing] at h
      cases h
    · rw [refused] at h
      cases h
      exact outside
  refine ⟨?_, ?_, ?_⟩
  · intro rs allowed h
    rcases started_or_early c node items options cancelAfter with
      ⟨calls, chunks, r, limit, deadline, rfl, started⟩ | ⟨rfl, nothing⟩ | ⟨e, refused, _⟩
    · refine .inr ⟨calls, chunks, r, limit, deadline, rfl, started, ?_⟩
      rw [started.outcome_call, allowed] at h
      cases ending : await c.style deadline cancelAfter
          (c.entriesFor node r limit chunks deadline) with
      | settled os =>
          simp only [ending, conclude] at h
          split at h
          · next ok =>
            cases h
            exact accounted_of_reassemble (fates_of_await ending) started ok
          · cases h
      | _ =>
          simp only [ending, conclude] at h
          cases h
    · rw [nothing] at h
      cases h
      exact .inl ⟨rfl, rfl⟩
    · rw [refused] at h
      cases h
  · intro got expected h
    cases external h
  · intro h
    cases external h

/-- A client with an aggregator of its own. -/
def plain (style : Style) : Client :=
  { style, chain := .null, customAddress := some .zero
    settings := ⟨1024, 4, false, none, none, none, none⟩
    registry := .empty, wrapper := [], code := [] }

/-- A call that could not be encoded. -/
def broken : Call :=
  { address := .null, fn := .text "f", args := [], kwargs := none, target := .zero
    encoding := .error ⟨.target, .null, .wrongKind⟩ }

/-- A node that refuses the first request and leaves the others without an answer. -/
def troubled : Node :=
  ⟨.ok .null, fun k _ => if k = 0 then .fault "down" else .hang, fun _ _ _ => none⟩

open scoped Platform.Lenient

/-- One chunk is refused and one times out. -/
theorem accounted_troubled :
    ∃ calls chunks r limit deadline,
      [broken, broken].map CallItem.call = calls.map CallItem.call ∧
      (plain .tasks).Started
        (({ batchSize := .int 2, timeout := .int 5 } : CallOptions).within (plain .tasks).settings)
        calls chunks r limit deadline ∧
      Accounted (plain .tasks) troubled calls chunks r limit deadline
        [.error (.chunk (located 0 1 (.request "down"))),
          .error (.chunk (located 1 1 (.timeout (.int 5))))] := by
  have started : (plain .tasks).Started
      (({ batchSize := .int 2, timeout := .int 5 } : CallOptions).within (plain .tasks).settings)
      [broken, broken] [[.ofCall broken], [.ofCall broken]]
      ⟨some (.text Address.zero.text), false, .text "latest"⟩ (some 4) (.ahead (.int 5)) :=
    ⟨rfl, rfl, rfl, nofun, rfl, rfl, by decide, rfl,
      Schedule.Deadline.ofValue_int (by decide +kernel)⟩
  have returned : ((plain .tasks).call troubled ([broken, broken].map CallItem.call)
      { batchSize := .int 2, timeout := .int 5 } none).outcome =
        .returned [.error (.chunk (located 0 1 (.request "down"))),
          .error (.chunk (located 1 1 (.timeout (.int 5))))] :=
    started.outcome_call.trans rfl
  exact ((accounted _ troubled _ _ none).1 _ rfl returned).resolve_left nofun

end Client

end EthBatch
