import EthBatch.Client.Run
import EthBatch.Proofs.Except

/-!
# Waiting is the same in both styles

A chunk is sent if there is a slot left by the chunks before it that hang. What the waiting for
all chunks comes to is decided chunk by chunk, by `Schedule.task`: it ends well if and only if
every chunk has an outcome, and the list of outcomes is in the order of the chunks. A pool
collects its outcomes by number and a run of tasks by place, which makes no difference.
-/

namespace EthBatch.Schedule

/-! ## Slots -/

/-- Is there a slot left when so many requests hang? -/
def hasSlot (slots : Option Nat) (hanging : Nat) : Bool :=
  match slots with
  | none => true
  | some n => hanging < n

@[simp] theorem length_sent (slots : Option Nat) (hangs : List Bool) :
    (sent slots hangs).length = hangs.length := by
  induction hangs generalizing slots with
  | nil => rfl
  | cons h hangs ih =>
      match slots with
      | none => simp [sent, ih]
      | some 0 => simp [sent, ih]
      | some (n + 1) => simp [sent, ih]

/-- A chunk is sent if the chunks before it leave a slot. -/
theorem getElem?_sent (slots : Option Nat) {hangs : List Bool} {i : Nat} (h : i < hangs.length) :
    (sent slots hangs)[i]? = some (hasSlot slots ((hangs.take i).count true)) := by
  induction hangs generalizing slots i with
  | nil => simp at h
  | cons b hangs ih =>
      cases i with
      | zero =>
          match slots with
          | none => rfl
          | some 0 => rfl
          | some (n + 1) => simp [sent, hasSlot]
      | succ i =>
          have inside : i < hangs.length := by simpa using h
          match slots with
          | none => simp [sent, ih none inside, hasSlot]
          | some 0 => simp [sent, ih (some 0) inside, hasSlot]
          | some (n + 1) =>
              cases b with
              | false => simp [sent, ih (some (n + 1)) inside, hasSlot]
              | true => simp [sent, ih (some n) inside, hasSlot]

/-- Without a request that hangs, every chunk is sent, provided there is any slot. -/
theorem hasSlot_zero {slots : Option Nat} (h : slots ≠ some 0) : hasSlot slots 0 = true := by
  cases slots with
  | none => rfl
  | some n =>
      simp only [hasSlot, decide_eq_true_eq]
      exact Nat.pos_of_ne_zero fun zero => h (by rw [zero])

section Attempts

variable (decided : Nat → Option Bool) (limit : Option Nat)

@[simp] theorem Entry.length_ofAttempts (attempts : List (Nat × Client.Attempt)) :
    (ofAttempts decided limit attempts).length = attempts.length := by
  simp [ofAttempts]

/-- An entry is its attempt. If nothing is decided about it, it is sent if the chunks before it
leave a slot. -/
theorem Entry.getElem?_ofAttempts {attempts : List (Nat × Client.Attempt)} {i : Nat}
    {a : Nat × Client.Attempt} (h : attempts[i]? = some a) :
    (ofAttempts decided limit attempts)[i]? = some ⟨a.1, a.2, (decided i).getD (hasSlot limit
      ((attempts.take i).countP fun a => a.2.result.isNone))⟩ := by
  have inside : i < attempts.length := (List.getElem?_eq_some_iff.mp h).1
  have flag := getElem?_sent limit
    (by simpa using inside : i < (attempts.map fun a => a.2.result.isNone).length)
  rw [← List.map_take, List.count, List.countP_map] at flag
  have same : (attempts.take i).countP ((fun b => b == true) ∘ fun a => a.2.result.isNone) =
      (attempts.take i).countP fun a => a.2.result.isNone :=
    List.countP_congr fun a _ => by simp
  rw [same] at flag
  have pair : (attempts.zip (sent limit (attempts.map fun a => a.2.result.isNone)))[i]? =
      some (a, hasSlot limit ((attempts.take i).countP fun a => a.2.result.isNone)) :=
    List.getElem?_zip_eq_some.mpr ⟨h, flag⟩
  simp only [ofAttempts, List.getElem?_mapIdx, pair, Option.map_some]

end Attempts

/-! ## Tasks -/

/-- What each chunk comes to. -/
def tasks (deadline : Deadline) (entries : List Entry) :
    List (Option (Except Fault ChunkOutcome)) :=
  entries.zipIdx.map fun p => task deadline p.2 p.1

/-- Chunks that all have an outcome. -/
def settled (os : List ChunkOutcome) : List (Option (Except Fault ChunkOutcome)) :=
  os.map fun o => some (.ok o)

theorem settled_inj {os os' : List ChunkOutcome} : settled os = settled os' ↔ os = os' :=
  List.map_inj_right fun _ _ h => by simpa using h

theorem not_mem_settled {f : Fault} {os : List ChunkOutcome} :
    some (.error f) ∉ settled os := by
  simp [settled]

section Range

variable {n : Nat} {f : Nat → Option (Except Fault ChunkOutcome)} {os : List ChunkOutcome}

theorem length_of_settled (h : (List.range n).map f = settled os) : os.length = n := by
  simpa [settled] using (congrArg List.length h).symm

/-- If the first chunks all have an outcome, each of them has its own. -/
theorem exists_of_settled (h : (List.range n).map f = settled os) {i : Nat} (inside : i < n) :
    ∃ o, os[i]? = some o ∧ f i = some (.ok o) := by
  have place := congrArg (·[i]?) h
  simp only [List.getElem?_map, List.getElem?_range inside, Option.map_some, settled] at place
  obtain ⟨o, here, same⟩ := Option.map_eq_some_iff.mp place.symm
  exact ⟨o, here, same.symm⟩

end Range

theorem getElem?_tasks {deadline : Deadline} {entries : List Entry} {i : Nat} {e : Entry}
    (h : entries[i]? = some e) : (tasks deadline entries)[i]? = some (task deadline i e) := by
  simp [tasks, h]

theorem gather_eq_settled {ts : List (Option (Except Fault ChunkOutcome))}
    {os : List ChunkOutcome} : gather ts = .settled os ↔ ts = settled os := by
  induction ts generalizing os with
  | nil => cases os <;> simp [gather, settled]
  | cons t ts ih =>
      cases os with
      | nil =>
          match t with
          | none => cases h : gather ts <;> simp [gather, h, settled]
          | some (.error f) => simp [gather, settled]
          | some (.ok o) => cases h : gather ts <;> simp [gather, h, settled]
      | cons o' os =>
          simp only [settled, List.map_cons, List.cons.injEq] at ih ⊢
          match t with
          | none => cases h : gather ts <;> simp [gather, h]
          | some (.error f) => simp [gather]
          | some (.ok o) =>
              rw [← ih]
              cases h : gather ts <;> simp [gather, h]

theorem mem_of_gather_escaped {ts : List (Option (Except Fault ChunkOutcome))} {f : Fault}
    (h : gather ts = .escaped f) : some (.error f) ∈ ts := by
  induction ts with
  | nil => cases h
  | cons t ts ih =>
      match t with
      | none =>
          simp only [gather] at h
          split at h
          · next hrest =>
            cases h
            exact List.mem_cons_of_mem _ (ih hrest)
          · cases h
      | some (.error g) =>
          cases h
          exact List.mem_cons_self
      | some (.ok o) =>
          simp only [gather] at h
          split at h
          · cases h
          · exact List.mem_cons_of_mem _ (ih h)

theorem none_mem_of_gather_pending {ts : List (Option (Except Fault ChunkOutcome))}
    (h : gather ts = .pending) : none ∈ ts := by
  induction ts with
  | nil => cases h
  | cons t ts ih =>
      match t with
      | none => exact List.mem_cons_self
      | some (.error f) => cases h
      | some (.ok o) =>
          simp only [gather] at h
          split at h
          · cases h
          · exact List.mem_cons_of_mem _ (ih h)

theorem gather_ne_cancelled (ts : List (Option (Except Fault ChunkOutcome))) :
    gather ts ≠ .cancelled := by
  induction ts with
  | nil => nofun
  | cons t ts ih =>
      match t with
      | none =>
          simp only [gather]
          split <;> nofun
      | some (.error f) => nofun
      | some (.ok o) =>
          simp only [gather]
          split
          · nofun
          · exact ih

/-! ## Pools -/

section Pool

variable {rows : List (Nat × Entry)} {known : List (Nat × ChunkOutcome)}

/-- The outcome of a chunk with its number, if it has one. -/
def finished (row : Nat × Entry) : Option (Nat × ChunkOutcome) :=
  match row.2.result with
  | some (.ok o) => some (row.1, o)
  | _ => none

theorem done_eq_ok (h : done rows = .ok known) :
    known = rows.filterMap finished ∧ ∀ row ∈ rows, ∀ f, row.2.result ≠ some (.error f) := by
  induction rows generalizing known with
  | nil =>
      cases h
      simp
  | cons row rows ih =>
      obtain ⟨i, e⟩ := row
      simp only [done] at h
      split at h
      · next none =>
        obtain ⟨rfl, rest⟩ := ih h
        simpa [finished, none] using rest
      · cases h
      · next o ok =>
        obtain ⟨known, hrest, rfl⟩ := Except.map_eq_ok.mp h
        obtain ⟨rfl, rest⟩ := ih hrest
        simpa [finished, ok] using rest

theorem mem_of_done_error {f : Fault} (h : done rows = .error f) :
    ∃ row ∈ rows, row.2.result = some (.error f) := by
  induction rows with
  | nil => cases h
  | cons row rows ih =>
      obtain ⟨i, e⟩ := row
      simp only [done] at h
      split at h
      · obtain ⟨row, mem, hrow⟩ := ih h
        exact ⟨row, List.mem_cons_of_mem _ mem, hrow⟩
      · next g error =>
        cases h
        exact ⟨_, List.mem_cons_self, error⟩
      · obtain ⟨row, mem, hrow⟩ := ih (Except.map_eq_error.mp h)
        exact ⟨row, List.mem_cons_of_mem _ mem, hrow⟩

theorem fst_of_finished {row : Nat × Entry} {p : Nat × ChunkOutcome}
    (h : finished row = some p) : p.1 = row.1 := by
  unfold finished at h
  split at h
  · cases h
    rfl
  · cases h

theorem lookup_finished_of_not_mem {i : Nat} (h : i ∉ rows.map Prod.fst) :
    (rows.filterMap finished).lookup i = none := by
  rw [List.lookup_eq_none_iff]
  intro p hp
  obtain ⟨row, mem, hrow⟩ := List.mem_filterMap.mp hp
  have other : i ≠ p.1 := fun same =>
    h (List.mem_map.mpr ⟨row, mem, (fst_of_finished hrow).symm.trans same.symm⟩)
  simpa using other

/-- Different chunks have different numbers, so each finds its own outcome again. -/
theorem lookup_finished (distinct : (rows.map Prod.fst).Nodup) {row : Nat × Entry}
    (h : row ∈ rows) :
    (rows.filterMap finished).lookup row.1 = (finished row).map Prod.snd := by
  induction rows with
  | nil => cases h
  | cons first rows ih =>
      simp only [List.map_cons, List.nodup_cons] at distinct
      rcases List.mem_cons.mp h with rfl | h
      · have rest := lookup_finished_of_not_mem distinct.1
        cases here : finished row with
        | none => simpa [List.filterMap_cons, here] using rest
        | some p =>
            obtain ⟨j, o⟩ := p
            obtain rfl : j = row.1 := fst_of_finished here
            simp [here]
      · have other : row.1 ≠ first.1 := fun same =>
          distinct.1 (List.mem_map.mpr ⟨row, h, same⟩)
        cases here : finished first with
        | none => simpa [List.filterMap_cons, here] using ih distinct.2 h
        | some p =>
            obtain ⟨j, o⟩ := p
            obtain rfl : j = first.1 := fst_of_finished here
            have miss : (row.1 == first.1) = false := by simpa using other
            simpa [List.filterMap_cons, here, List.lookup_cons, miss] using ih distinct.2 h

/-- With the outcomes of the chunks that are done, the rest has timed out. -/
theorem fillIn_finished (seconds : Value) (distinct : (rows.map Prod.fst).Nodup)
    (noFault : ∀ row ∈ rows, ∀ f, row.2.result ≠ some (.error f)) :
    rows.map (fun row => task (.ahead seconds) row.1 row.2) =
      settled (fillIn seconds (rows.filterMap finished) rows) := by
  rw [settled, fillIn, List.map_map]
  apply List.map_congr_left
  rintro ⟨i, e⟩ hrow
  have noFault := noFault _ hrow
  simp only [Function.comp_apply, lookup_finished distinct hrow, finished, task]
  match hresult : e.result with
  | none => rfl
  | some (.error f) => exact absurd hresult (noFault f)
  | some (.ok o) => rfl

theorem finished_of_done (ended : ∀ row ∈ rows, row.2.result.isNone = false)
    (noFault : ∀ row ∈ rows, ∀ f, row.2.result ≠ some (.error f)) :
    rows.map (fun row => task .never row.1 row.2) =
      settled ((rows.filterMap finished).map Prod.snd) := by
  induction rows with
  | nil => rfl
  | cons row rows ih =>
      have rest := ih (fun r hr => ended r (List.mem_cons_of_mem _ hr))
        (fun r hr => noFault r (List.mem_cons_of_mem _ hr))
      have ended := ended row List.mem_cons_self
      have noFault := noFault row List.mem_cons_self
      match hrow : row.2.result with
      | none => simp [hrow] at ended
      | some (.error f) => exact absurd hrow (noFault f)
      | some (.ok o) =>
          have here : finished row = some (row.1, o) := by simp [finished, hrow]
          rw [List.map_cons, rest, List.filterMap_cons, here]
          simp [task, hrow, settled]

end Pool

theorem awaitPool_eq_settled {deadline : Deadline} {entries : List Entry}
    {os : List ChunkOutcome} :
    awaitPool deadline entries = .settled os ↔ tasks deadline entries = settled os := by
  have numbered (d : Deadline) : tasks d entries =
      (entries.zipIdx.map fun p => (p.2, p.1)).map fun row => task d row.1 row.2 := by
    rw [tasks, List.map_map]
    rfl
  have distinct : ((entries.zipIdx.map fun p => (p.2, p.1)).map Prod.fst).Nodup := by
    rw [List.map_map]
    exact List.zipIdx_map_snd 0 entries ▸ List.nodup_range'
  rw [numbered]
  generalize hrows : (entries.zipIdx.map fun p => (p.2, p.1)) = rows at distinct
  have faulty {d : Deadline} {f : Fault} (h : done rows = .error f)
      (late : ∀ s, d ≠ .passed s) :
      (rows.map fun row => task d row.1 row.2) ≠ settled os := by
    intro same
    obtain ⟨row, mem, hrow⟩ := mem_of_done_error h
    have : task d row.1 row.2 = some (.error f) := by
      cases d <;> simp_all [task]
    exact not_mem_settled (same ▸ List.mem_map.mpr ⟨row, mem, this⟩)
  cases deadline with
  | passed seconds =>
      have late : (rows.map fun row => task (.passed seconds) row.1 row.2) =
          settled (fillIn seconds [] rows) := by
        rw [settled, fillIn, List.map_map]
        rfl
      simp [awaitPool, hrows, late, settled_inj]
  | ahead seconds =>
      cases h : done rows with
      | error f => simp [awaitPool, hrows, h, faulty h]
      | ok known =>
          obtain ⟨rfl, noFault⟩ := done_eq_ok h
          simp [awaitPool, hrows, h, fillIn_finished seconds distinct noFault, settled_inj]
  | never =>
      by_cases ended : ∀ row ∈ rows, row.2.result.isNone = false
      · have quiet : (entries.any fun e => e.result.isNone) = false := by
          rw [List.any_eq_false]
          intro e he
          obtain ⟨i, hi⟩ := List.getElem?_of_mem he
          have := ended (i, e) (by
            rw [← hrows]
            exact List.mem_map.mpr ⟨(e, i), List.mem_zipIdx_iff_getElem?.mpr hi, rfl⟩)
          simp [this]
        cases h : done rows with
        | error f => simp [awaitPool, hrows, h, quiet, faulty h]
        | ok known =>
            obtain ⟨rfl, noFault⟩ := done_eq_ok h
            simp [awaitPool, hrows, h, quiet, finished_of_done ended noFault, settled_inj]
      · simp only [Classical.not_forall] at ended
        obtain ⟨row, mem, hrow⟩ := ended
        have hangs : row.2.result = none := by simpa using hrow
        have busy : (entries.any fun e => e.result.isNone) = true := by
          rw [← hrows] at mem
          obtain ⟨p, hp, rfl⟩ := List.mem_map.mp mem
          exact List.any_eq_true.mpr ⟨p.1, List.fst_mem_of_mem_zipIdx hp, by simpa using hangs⟩
        have never : (rows.map fun row => task .never row.1 row.2) ≠ settled os := by
          intro same
          have : (none : Option (Except Fault ChunkOutcome)) ∈ settled os :=
            same ▸ List.mem_map.mpr ⟨row, mem, hangs⟩
          simp [settled] at this
        simp [awaitPool, busy, never]

theorem mem_of_awaitPool_escaped {deadline : Deadline} {entries : List Entry} {f : Fault}
    (h : awaitPool deadline entries = .escaped f) : some (.error f) ∈ tasks deadline entries := by
  have found {d : Deadline} (late : ∀ s, d ≠ .passed s)
      (h : done (entries.zipIdx.map fun p => (p.2, p.1)) = .error f) :
      some (.error f) ∈ tasks d entries := by
    obtain ⟨row, mem, hrow⟩ := mem_of_done_error h
    obtain ⟨p, hp, rfl⟩ := List.mem_map.mp mem
    refine List.mem_map.mpr ⟨p, hp, ?_⟩
    cases d <;> simp_all [task]
  cases deadline with
  | passed seconds => cases h
  | ahead seconds =>
      simp only [awaitPool] at h
      split at h
      · next error =>
        cases h
        exact found nofun error
      · cases h
  | never =>
      simp only [awaitPool] at h
      split at h
      · cases h
      · split at h
        · next error =>
          cases h
          exact found nofun error
        · cases h

/-- A pool waits on only if there is no deadline and some chunk does not end. -/
theorem none_mem_of_awaitPool_pending {deadline : Deadline} {entries : List Entry}
    (h : awaitPool deadline entries = .pending) : none ∈ tasks deadline entries := by
  cases deadline with
  | passed seconds => cases h
  | ahead seconds =>
      simp only [awaitPool] at h
      split at h <;> cases h
  | never =>
      simp only [awaitPool] at h
      split at h
      · next busy =>
        obtain ⟨e, he, hangs⟩ := List.any_eq_true.mp busy
        obtain ⟨i, hi⟩ := List.getElem?_of_mem he
        refine List.mem_map.mpr ⟨(e, i), List.mem_zipIdx_iff_getElem?.mpr hi, ?_⟩
        simpa [task] using hangs
      · split at h <;> cases h

theorem awaitPool_ne_cancelled (deadline : Deadline) (entries : List Entry) :
    awaitPool deadline entries ≠ .cancelled := by
  unfold awaitPool
  dsimp only
  repeat' split
  all_goals nofun

/-! ## Both styles -/

theorem Ending.orCancelled_eq_escaped {ending : Ending} {f : Fault} :
    ending.orCancelled = .escaped f ↔ ending = .escaped f := by
  cases ending <;> simp [orCancelled]

theorem Ending.orCancelled_ne_settled (ending : Ending) (os : List ChunkOutcome) :
    ending.orCancelled ≠ .settled os := by
  cases ending <;> simp [orCancelled]

section Await

variable {style : Style} {deadline : Deadline} {cancelAfter : Option Nat} {entries : List Entry}

/-- The waiting ends well if and only if every chunk has an outcome. -/
theorem await_eq_settled {os : List ChunkOutcome} :
    Client.await style deadline none entries = .settled os ↔
      tasks deadline entries = settled os := by
  cases style with
  | pool => exact awaitPool_eq_settled
  | tasks =>
      simp only [Client.await, awaitTasks, Client.isCancelled, Bool.false_eq_true, if_false]
      exact gather_eq_settled

/-- Only tasks can be cancelled, and what is cancelled does not end well. -/
theorem tasks_of_await {os : List ChunkOutcome}
    (h : Client.await style deadline cancelAfter entries = .settled os) :
    tasks deadline entries = settled os := by
  cases style with
  | pool => exact awaitPool_eq_settled.mp h
  | tasks =>
      simp only [Client.await, awaitTasks] at h
      split at h
      · exact absurd h (Ending.orCancelled_ne_settled _ os)
      · exact gather_eq_settled.mp h

/-- A fault that ends the waiting is that of a chunk. -/
theorem mem_of_await_escaped {f : Fault}
    (h : Client.await style deadline cancelAfter entries = .escaped f) :
    some (.error f) ∈ tasks deadline entries := by
  cases style with
  | pool => exact mem_of_awaitPool_escaped h
  | tasks =>
      simp only [Client.await, awaitTasks] at h
      split at h
      · exact mem_of_gather_escaped (Ending.orCancelled_eq_escaped.mp h)
      · exact mem_of_gather_escaped h

/-- Without a cancellation, the waiting ends well, or with the fault of a chunk, or some chunk
does not end. -/
theorem await_cases (style : Style) (deadline : Deadline) (entries : List Entry) :
    (∃ os, Client.await style deadline none entries = .settled os) ∨
    (∃ f, Client.await style deadline none entries = .escaped f) ∨
    none ∈ tasks deadline entries := by
  cases style with
  | pool =>
      cases h : Client.await .pool deadline none entries with
      | settled os => exact .inl ⟨os, rfl⟩
      | escaped f => exact .inr (.inl ⟨f, rfl⟩)
      | cancelled => exact absurd h (awaitPool_ne_cancelled deadline entries)
      | pending => exact .inr (.inr (none_mem_of_awaitPool_pending h))
  | tasks =>
      have same : Client.await .tasks deadline none entries = gather (tasks deadline entries) := by
        simp only [Client.await, awaitTasks, Client.isCancelled, Bool.false_eq_true, if_false]
        rfl
      rw [same]
      cases h : gather (tasks deadline entries) with
      | settled os => exact .inl ⟨os, rfl⟩
      | escaped f => exact .inr (.inl ⟨f, rfl⟩)
      | cancelled => exact absurd h (gather_ne_cancelled _)
      | pending => exact .inr (.inr (none_mem_of_gather_pending h))

end Await

end EthBatch.Schedule
