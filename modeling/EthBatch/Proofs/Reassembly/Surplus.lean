import EthBatch.Proofs.Client.Entries

/-!
# When the number of results does not match

A chunk with an error makes an entry for each of its calls, and any other chunk one for each of its
answers. When these entries are not as many as the calls, the reassembly reports both numbers,
unless an answer stands behind the last call. There is no call then to settle it with, and the
reassembly ends before it comes to count.
-/

namespace EthBatch

/-- The number of entries that a chunk of a given size makes. -/
def ChunkOutcome.entries (size : Nat) : ChunkOutcome → Nat
  | .error _ => size
  | .ok answers => answers.length

namespace Reassembly

/-- The number of entries that chunks make together. -/
def total (rows : List (Nat × ChunkOutcome)) : Nat :=
  (rows.map fun row => row.2.entries row.1).sum

/-- An answer stands behind the last of so many calls. -/
def Overruns (count : Nat) (rows : List (Nat × ChunkOutcome)) : Prop :=
  ∃ before size answers after, rows = before ++ (size, .ok answers) :: after ∧
    answers ≠ [] ∧ count < total before + answers.length

/-- Every answer that has a call settles it. -/
def SettleEach (calls : List Call) (answers : List Answer) : Prop :=
  ∀ (i : Nat) (a : Answer) (c : Call), answers[i]? = some a → calls[i]? = some c →
    ∃ r, c.settle a = .ok r

/-- Every answer of every chunk settles the call at its place, if there is one. -/
def Settle (calls : List Call) (rows : List (Nat × ChunkOutcome)) : Prop :=
  ∀ before size answers after, rows = before ++ (size, .ok answers) :: after →
    SettleEach (calls.drop (total before)) answers

variable {calls : List Call} {answers : List Answer} {size count : Nat}
variable {row : Nat × ChunkOutcome} {rows : List (Nat × ChunkOutcome)}

@[simp] theorem total_nil : total [] = 0 := rfl

@[simp] theorem total_cons (row : Nat × ChunkOutcome) (rows : List (Nat × ChunkOutcome)) :
    total (row :: rows) = row.2.entries row.1 + total rows := rfl

theorem total_append (before after : List (Nat × ChunkOutcome)) :
    total (before ++ after) = total before + total after := by
  simp [total]

/-! ## What holds of the first chunk and of the others -/

theorem not_overruns_nil (count : Nat) : ¬ Overruns count [] := by
  rintro ⟨before, size, answers, after, split, -⟩
  simp at split

theorem overruns_cons : Overruns count (row :: rows) ↔
    (∃ answers, row.2 = .ok answers ∧ answers ≠ [] ∧ count < answers.length) ∨
      Overruns (count - row.2.entries row.1) rows := by
  constructor
  · rintro ⟨before, size, answers, after, split, some, beyond⟩
    cases before with
    | nil =>
        obtain ⟨rfl, rfl⟩ := List.cons.inj split
        exact .inl ⟨answers, rfl, some, by simpa using beyond⟩
    | cons first before =>
        obtain ⟨rfl, rfl⟩ := List.cons.inj split
        -- The difference stops at zero, where a single answer is too many already.
        have nonempty := List.length_pos_iff.mpr some
        rw [total_cons] at beyond
        exact .inr ⟨before, size, answers, after, rfl, some, by omega⟩
  · rintro (⟨answers, here, some, beyond⟩ | ⟨before, size, answers, after, rfl, some, beyond⟩)
    · exact ⟨[], row.1, answers, rows, by rw [← here]; rfl, some, by simpa using beyond⟩
    · refine ⟨row :: before, size, answers, after, rfl, some, ?_⟩
      rw [total_cons]
      omega

/-- There are more entries than calls if an answer has no call. -/
theorem Overruns.lt_total (h : Overruns count rows) : count < total rows := by
  obtain ⟨before, size, answers, after, rfl, -, beyond⟩ := h
  rw [total_append, total_cons]
  simp only [ChunkOutcome.entries]
  omega

theorem Settle.head (h : Settle calls ((size, .ok answers) :: rows)) : SettleEach calls answers :=
  h [] size answers rows rfl

theorem Settle.tail (h : Settle calls (row :: rows)) :
    Settle (calls.drop (row.2.entries row.1)) rows := by
  rintro before size answers after rfl
  rw [List.drop_drop, ← total_cons]
  exact h (row :: before) size answers after rfl

/-! ## One chunk -/

variable {a : Answer} {c : Call}

/-- The first answer settles the first call, and the others go on with the other calls. -/
theorem SettleEach.settleAll_cons (h : SettleEach (c :: calls) (a :: answers)) :
    SettleEach calls answers ∧ ∃ r, settleAll true (c :: calls) (a :: answers) =
      (settleAll true calls answers).map (r :: ·) := by
  obtain ⟨r, here⟩ := h 0 a c rfl rfl
  have first : settle true c a = .ok r := by
    rw [settle, here]
    cases r <;> rfl
  refine ⟨fun i => h (i + 1), r, ?_⟩
  rw [settleAll, first, Except.ok_bind]
  cases settleAll true calls answers <;> rfl

/-- The answers of a chunk settle the next calls if there is a call for each. -/
theorem exists_settleAll (settles : SettleEach calls answers)
    (enough : answers.length ≤ calls.length) :
    ∃ rs, settleAll true calls answers = .ok rs ∧ rs.length = answers.length := by
  induction answers generalizing calls with
  | nil => exact ⟨[], by cases calls <;> rfl, rfl⟩
  | cons a answers ih =>
      match calls, enough with
      | c :: calls, enough =>
          obtain ⟨later, r, here⟩ := settles.settleAll_cons
          obtain ⟨rs, rest, length⟩ := ih later (Nat.le_of_succ_le_succ enough)
          exact ⟨r :: rs, by rw [here, rest]; rfl, congrArg Nat.succ length⟩

/-- If there are too few calls, there is nothing to settle the first surplus answer with. -/
theorem settleAll_of_lt (settles : SettleEach calls answers)
    (few : calls.length < answers.length) :
    settleAll true calls answers = .error (.fault .badIndex) := by
  induction answers generalizing calls with
  | nil => cases few
  | cons a answers ih =>
      cases calls with
      | nil => rfl
      | cons c calls =>
          obtain ⟨later, r, here⟩ := settles.settleAll_cons
          rw [here, ih later (Nat.lt_of_succ_lt_succ few)]
          rfl

/-! ## One chunk after the other -/

theorem collect_of_not_overruns (settles : Settle calls rows)
    (inside : ¬ Overruns calls.length rows) :
    ∃ rs, collect true calls rows = .ok rs ∧ rs.length = total rows := by
  induction rows generalizing calls with
  | nil => exact ⟨[], by cases calls <;> rfl, rfl⟩
  | cons row rows ih =>
      rw [overruns_cons, not_or] at inside
      obtain ⟨here, later⟩ := inside
      rw [← List.length_drop] at later
      obtain ⟨rs, rest, length⟩ := ih settles.tail later
      obtain ⟨size, o⟩ := row
      cases o with
      | error e =>
          refine ⟨List.replicate size (.error (.chunk e)) ++ rs, ?_, ?_⟩
          · rw [collect, if_pos rfl]
            exact Except.bind_eq_ok.mpr ⟨rs, rest, rfl⟩
          · simp [length, ChunkOutcome.entries]
      | ok answers =>
          have enough : answers.length ≤ calls.length := by
            by_contra few
            have some : answers ≠ [] := by
              rintro rfl
              simp at few
            exact here ⟨answers, rfl, some, by omega⟩
          obtain ⟨front, first, count⟩ := exists_settleAll settles.head enough
          refine ⟨front ++ rs, ?_, by simp [count, length, ChunkOutcome.entries]⟩
          rw [collect, first, Except.ok_bind]
          exact Except.bind_eq_ok.mpr ⟨rs, rest, rfl⟩

theorem collect_of_overruns (settles : Settle calls rows) (beyond : Overruns calls.length rows) :
    collect true calls rows = .error (.fault .badIndex) := by
  induction rows generalizing calls with
  | nil => exact absurd beyond (not_overruns_nil _)
  | cons row rows ih =>
      rw [overruns_cons, ← List.length_drop] at beyond
      obtain ⟨size, o⟩ := row
      cases o with
      | error e =>
          rw [collect, if_pos rfl]
          rcases beyond with ⟨_, same, _⟩ | later
          · cases same
          · exact Except.bind_eq_error.mpr (.inl (ih settles.tail later))
      | ok answers =>
          rw [collect]
          by_cases few : calls.length < answers.length
          · rw [settleAll_of_lt settles.head few]
            rfl
          · obtain ⟨front, first, _⟩ := exists_settleAll settles.head (Nat.le_of_not_lt few)
            rw [first, Except.ok_bind]
            rcases beyond with ⟨_, same, _, beyond⟩ | later
            · obtain rfl := Except.ok.inj same
              exact absurd beyond few
            · exact Except.bind_eq_error.mpr (.inl (ih settles.tail later))

/-- With an encoding failure every answer settles a call. -/
theorem settle_of_unencoded (unencoded : ∀ c ∈ calls, ∃ f, c.encoding = .error f)
    (rows : List (Nat × ChunkOutcome)) : Settle calls rows := by
  intro before size answers after _ i a c _ call
  obtain ⟨f, failed⟩ := unencoded c (List.mem_of_mem_drop (List.mem_of_getElem? call))
  exact ⟨_, by rw [Call.settle, failed]⟩

end Reassembly

open Reassembly

/-- Chunks with as many entries as there are calls give the results. If there are more or fewer
entries, both numbers are reported unless an answer stands behind the last call; if one does, there
are more entries than calls, and there is no call at the place that is asked for. -/
theorem mismatch_reported_unless_overrun (calls : List Call) (sizes : List Nat)
    (os : List ChunkOutcome) (settle : Settle calls (sizes.zip os)) :
    (total (sizes.zip os) = calls.length →
      ∃ rs, reassemble calls sizes os true = .ok rs ∧ rs.length = calls.length) ∧
    (total (sizes.zip os) ≠ calls.length →
      (reassemble calls sizes os true =
          .error (.resultsMismatch (.int (total (sizes.zip os))) (.int calls.length)) ↔
        ¬ Overruns calls.length (sizes.zip os))) ∧
    (Overruns calls.length (sizes.zip os) → calls.length < total (sizes.zip os) ∧
      reassemble calls sizes os true = .error (.fault .badIndex)) := by
  have overrun (beyond : Overruns calls.length (sizes.zip os)) :
      reassemble calls sizes os true = .error (.fault .badIndex) := by
    rw [reassemble, collect_of_overruns settle beyond]
    rfl
  refine ⟨?_, ?_, fun beyond => ⟨beyond.lt_total, overrun beyond⟩⟩
  · intro same
    obtain ⟨rs, collected, length⟩ := collect_of_not_overruns settle fun beyond =>
      Nat.ne_of_gt beyond.lt_total same
    refine ⟨rs, ?_, length.trans same⟩
    rw [reassemble, collected, Except.ok_bind, if_pos (length.trans same)]
  · intro differ
    constructor
    · intro reported beyond
      rw [overrun beyond] at reported
      cases reported
    · intro inside
      obtain ⟨rs, collected, length⟩ := collect_of_not_overruns settle inside
      rw [reassemble, collected, Except.ok_bind, length, if_neg differ]

/-- Two answers for one call. -/
def surplus : ChunkOutcome := .ok [⟨false, []⟩, ⟨false, []⟩]

/-- A chunk with a surplus answer is not reported. -/
theorem exists_surplus_not_reported : ∃ calls sizes os, os.length = sizes.length ∧
    Settle calls (sizes.zip os) ∧ total (sizes.zip os) ≠ calls.length ∧
    reassemble calls sizes os true ≠
      .error (.resultsMismatch (.int (total (sizes.zip os))) (.int calls.length)) :=
  ⟨[Client.broken], [1], [surplus], rfl, settle_of_unencoded (by simp [Client.broken]) _,
    by decide, nofun⟩

/-- A chunk that failed as a whole. -/
def lost : ChunkOutcome := .error ⟨.emptyOutput, some 0, some 2⟩

/-- A failed chunk of two calls is reported if there is one call only, and also with no answers
behind it; with answers behind it, they are out of range. -/
theorem mismatch_reported_unless_overrun_lost :
    Settle [Client.broken] ([2, 1].zip [lost, .ok []]) ∧
    reassemble [Client.broken] [2, 1] [lost, .ok []] true =
      .error (.resultsMismatch (.int 2) (.int 1)) ∧
    Settle [Client.broken] ([2, 1].zip [lost, surplus]) ∧
    reassemble [Client.broken] [2, 1] [lost, surplus] true = .error (.fault .badIndex) := by
  have settle : ∀ rows, Settle [Client.broken] rows :=
    settle_of_unencoded (by simp [Client.broken])
  have inside : ¬ Overruns 1 ([2, 1].zip [lost, .ok []]) := by
    simp [overruns_cons, not_overruns_nil, lost]
  have beyond : Overruns 1 ([2, 1].zip [lost, surplus]) :=
    ⟨[(2, lost)], 1, _, [], rfl, List.cons_ne_nil _ _, by decide⟩
  obtain ⟨-, reported, -⟩ := mismatch_reported_unless_overrun [Client.broken] [2, 1]
    [lost, .ok []] (settle _)
  obtain ⟨-, -, overrun⟩ := mismatch_reported_unless_overrun [Client.broken] [2, 1]
    [lost, surplus] (settle _)
  exact ⟨settle _, (reported (by decide)).mpr inside, settle _, (overrun beyond).2⟩

end EthBatch
