import EthBatch.Aggregate
import EthBatch.Proofs.Plan

/-!
# Chunks are packed greedily

A way to cut calls into chunks is `Greedy` if chunks of several calls stay within the budget and
no chunk could also take the first call of the next one. There is exactly one such way, and it is
the one that `pack` finds: two of them cannot differ in the length of their first chunk, for the
shorter one could take a call that the longer one has.
-/

namespace EthBatch.Plan

section

variable {α : Type} (cost : α → Nat)

/-- The cost of a chunk. -/
def total (chunk : List α) : Nat := (chunk.map cost).sum

@[simp] theorem total_nil : total cost [] = 0 := rfl

@[simp] theorem total_cons (x : α) (chunk : List α) :
    total cost (x :: chunk) = cost x + total cost chunk := by
  simp [total]

@[simp] theorem total_append (chunk more : List α) :
    total cost (chunk ++ more) = total cost chunk + total cost more := by
  simp [total]

@[simp] theorem total_reverse (chunk : List α) : total cost chunk.reverse = total cost chunk := by
  simp [total]

/-- Is the first call of the next chunk too much for a chunk? -/
def IsFull (budget : Nat) (chunk next : List α) : Prop :=
  ∀ x ∈ next.head?, budget < total cost chunk + cost x

/-- Calls cut into chunks one by one, each chunk being closed only when the next call exceeds the
budget. -/
structure Greedy (budget : Nat) (xs : List α) (cs : List (List α)) : Prop where
  flatten : cs.flatten = xs
  nonempty : ∀ chunk ∈ cs, chunk ≠ []
  /-- A single call may exceed the budget. -/
  within : ∀ chunk ∈ cs, 2 ≤ chunk.length → total cost chunk ≤ budget
  full : cs.IsChain (IsFull cost budget)

instance [DecidableEq α] (budget : Nat) (xs : List α) (cs : List (List α)) :
    Decidable (Greedy cost budget xs cs) :=
  have (chunk next : List α) : Decidable (IsFull cost budget chunk next) :=
    inferInstanceAs (Decidable (∀ x ∈ next.head?, budget < total cost chunk + cost x))
  decidable_of_iff (cs.flatten = xs ∧ (∀ chunk ∈ cs, chunk ≠ []) ∧
      (∀ chunk ∈ cs, 2 ≤ chunk.length → total cost chunk ≤ budget) ∧
      cs.IsChain (IsFull cost budget))
    ⟨fun ⟨flatten, nonempty, within, full⟩ => ⟨flatten, nonempty, within, full⟩,
      fun h => ⟨h.flatten, h.nonempty, h.within, h.full⟩⟩

variable {cost} {budget : Nat} {xs : List α} {cs ds : List (List α)} {c d : List α}

/-! ## Packing is greedy -/

/-- The first chunk begins with the calls that it already holds. -/
theorem packFrom_eq_cons (cost : α → Nat) (budget : Nat) (current : List α) (used : Nat)
    (xs : List α) :
    ∃ more rest, packFrom cost budget current used xs = (current.reverse ++ more) :: rest := by
  induction xs generalizing current used with
  | nil => exact ⟨[], [], by simp [packFrom]⟩
  | cons x xs ih =>
      rw [packFrom]
      split
      · exact ⟨[], packFrom cost budget [x] (cost x) xs, by simp⟩
      · obtain ⟨more, rest, h⟩ := ih (x :: current) (used + cost x)
        exact ⟨x :: more, rest, by simpa using h⟩

/-- No chunk is closed too late, provided that the open one is within the budget. -/
theorem within_packFrom {current : List α} {used : Nat} (sum : used = total cost current)
    (fits : 2 ≤ current.length → used ≤ budget) {chunk : List α}
    (h : chunk ∈ packFrom cost budget current used xs) (several : 2 ≤ chunk.length) :
    total cost chunk ≤ budget := by
  induction xs generalizing current used with
  | nil =>
      obtain rfl : chunk = current.reverse := by simpa [packFrom] using h
      rw [total_reverse, ← sum]
      exact fits (by simpa using several)
  | cons x xs ih =>
      rw [packFrom] at h
      split at h
      · rcases List.mem_cons.mp h with rfl | h
        · rw [total_reverse, ← sum]
          exact fits (by simpa using several)
        · exact ih (by simp [total]) (fun two => absurd two (by simp)) h
      · next room =>
        refine ih (by rw [total_cons, sum, Nat.add_comm]) (fun two => ?_) h
        -- The chunk already holds a call, so it was open for the next one because of its cost.
        have some : current ≠ [] := by
          rintro rfl
          simp at two
        simpa [some] using room

/-- No chunk is closed too early. -/
theorem full_packFrom {current : List α} {used : Nat} (sum : used = total cost current) :
    (packFrom cost budget current used xs).IsChain (IsFull cost budget) := by
  induction xs generalizing current used with
  | nil => exact .singleton _
  | cons x xs ih =>
      rw [packFrom]
      split
      · next exceeds =>
        have rest : (packFrom cost budget [x] (cost x) xs).IsChain (IsFull cost budget) :=
          ih (by simp [total])
        obtain ⟨more, later, h⟩ := packFrom_eq_cons cost budget [x] (cost x) xs
        rw [h] at rest ⊢
        refine .cons_cons ?_ rest
        intro y first
        obtain rfl : x = y := by simpa using first
        rw [total_reverse, ← sum]
        simp only [Bool.and_eq_true, decide_eq_true_eq] at exceeds
        exact exceeds.2
      · exact ih (by rw [total_cons, sum, Nat.add_comm])

theorem greedy_pack (cost : α → Nat) (budget : Nat) (xs : List α) :
    Greedy cost budget xs (pack cost budget xs) := by
  cases xs with
  | nil => exact ⟨rfl, nofun, nofun, .nil⟩
  | cons x xs =>
      refine ⟨flatten_chunks cost (.limit budget) (x :: xs), ?_, ?_, ?_⟩
      · intro chunk h
        exact ne_nil_of_mem_packFrom cost (.inr (by simp)) h
      · intro chunk h
        exact within_packFrom rfl (fun two => absurd two (by simp)) h
      · exact full_packFrom rfl

/-! ## There is only one greedy way -/

theorem Greedy.tail (h : Greedy cost budget xs (c :: cs)) : Greedy cost budget cs.flatten cs :=
  ⟨rfl, fun chunk mem => h.nonempty chunk (List.mem_cons_of_mem c mem),
    fun chunk mem => h.within chunk (List.mem_cons_of_mem c mem), h.full.tail⟩

/-- The first chunk is too full for the call behind it. -/
theorem Greedy.lt_total_append (h : Greedy cost budget xs (c :: cs)) {x : α} {more : List α}
    (next : cs.flatten = x :: more) : budget < total cost (c ++ [x]) := by
  cases cs with
  | nil => cases next
  | cons second cs =>
      cases second with
      | nil => exact absurd rfl (h.nonempty [] (by simp))
      | cons y second =>
          obtain rfl : y = x := by simpa using congrArg List.head? next
          have full := (List.isChain_cons_cons.mp h.full).1 y rfl
          simpa [total] using full

/-- No first chunk is longer than that of another greedy way. -/
theorem Greedy.length_le (h : Greedy cost budget xs (c :: cs))
    (h' : Greedy cost budget xs (d :: ds)) : d.length ≤ c.length := by
  by_contra longer
  have same : c ++ cs.flatten = d ++ ds.flatten := by
    rw [← List.flatten_cons, ← List.flatten_cons, h.flatten, h'.flatten]
  obtain ⟨more, rfl⟩ : ∃ more, d = c ++ more :=
    (List.prefix_of_prefix_length_le ⟨_, same⟩ ⟨_, rfl⟩ (by omega)).imp fun _ => Eq.symm
  cases more with
  | nil => simp at longer
  | cons x more =>
      have next : cs.flatten = x :: (more ++ ds.flatten) := by simpa using same
      have exceeds := h.lt_total_append next
      have some := List.length_pos_iff.mpr (h.nonempty c List.mem_cons_self)
      have fits := h'.within _ List.mem_cons_self (by
        rw [List.length_append, List.length_cons]
        omega)
      simp only [total_append, total_cons, total_nil] at exceeds fits
      omega

theorem Greedy.unique (h : Greedy cost budget xs cs) (h' : Greedy cost budget xs ds) : cs = ds := by
  induction cs generalizing xs ds with
  | nil =>
      cases ds with
      | nil => rfl
      | cons d ds =>
          have empty : d ++ ds.flatten = [] := h'.flatten.trans h.flatten.symm
          exact absurd (List.append_eq_nil_iff.mp empty).1 (h'.nonempty d List.mem_cons_self)
  | cons c cs ih =>
      cases ds with
      | nil =>
          have empty : c ++ cs.flatten = [] := h.flatten.trans h'.flatten.symm
          exact absurd (List.append_eq_nil_iff.mp empty).1 (h.nonempty c List.mem_cons_self)
      | cons d ds =>
          have same : c ++ cs.flatten = d ++ ds.flatten := h.flatten.trans h'.flatten.symm
          obtain ⟨rfl, rest⟩ := List.append_inj same
            (Nat.le_antisymm (h'.length_le h) (h.length_le h'))
          rw [ih h.tail (rest ▸ h'.tail)]

theorem greedy_iff : Greedy cost budget xs cs ↔ cs = pack cost budget xs := by
  constructor
  · intro h
    exact h.unique (greedy_pack cost budget xs)
  · rintro rfl
    exact greedy_pack cost budget xs

end

/-! ## Whole budgets -/

/-- Whole numbers are budgets, and truth values count as such. -/
theorem Budget.ofValue_of_number {v : Value} {b : Int} (h : v.number? = some b) :
    Budget.ofValue v = .ok (.ofInt b) := by
  cases v with
  | int n =>
      cases h
      exact Budget.ofValue_int b
  | bool flag => cases flag <;> cases h <;> rfl
  | _ => cases h

/-- A whole budget of one or more makes the greedy chunks and no others. No budget, or one of zero
or less, makes one chunk of all calls, and no calls make no chunk. -/
theorem packs_greedily (calls : List SubCall) (batchSize : Value) :
    (∀ b, batchSize.number? = some b → 1 ≤ b →
      ∃ chunks, chunksFor SubCall.cost batchSize calls = .ok chunks ∧
        ∀ cs, Greedy SubCall.cost b.toNat calls cs ↔ cs = chunks) ∧
    (batchSize = .null ∨ (∃ b ≤ 0, batchSize.number? = some b) → calls ≠ [] →
      chunksFor SubCall.cost batchSize calls = .ok [calls]) ∧
    chunksFor SubCall.cost batchSize [] = .ok [] := by
  refine ⟨?_, ?_, rfl⟩
  · intro b whole positive
    refine ⟨pack SubCall.cost b.toNat calls, ?_, fun cs => greedy_iff⟩
    cases calls with
    | nil => rfl
    | cons c calls =>
        have limited : Budget.ofInt b = .limit b.toNat := if_neg (by omega)
        simp only [chunksFor, List.isEmpty_cons, Bool.false_eq_true, if_false,
          Budget.ofValue_of_number whole, limited]
        rfl
  · intro lifted some
    have unlimited : Budget.ofValue batchSize = .ok .unlimited := by
      rcases lifted with rfl | ⟨b, negative, whole⟩
      · rfl
      · rw [Budget.ofValue_of_number whole, Budget.ofInt, if_pos negative]
    have nonempty : calls.isEmpty = false := by simpa using some
    simp only [chunksFor, nonempty, Bool.false_eq_true, if_false, unlimited, Except.map, chunks]

/-- A call without calldata. -/
def bare : SubCall := ⟨.zero, true, []⟩

/-- A call that exceeds a budget of four on its own. -/
def oversized : SubCall := ⟨.zero, true, [1, 2, 3, 4, 5]⟩

theorem packs_greedily_oversized :
    chunksFor SubCall.cost (.int 4) [bare, bare, bare, oversized] =
      .ok [[bare, bare], [bare], [oversized]] := by
  have greedy : Greedy SubCall.cost 4 [bare, bare, bare, oversized]
      [[bare, bare], [bare], [oversized]] := by decide
  obtain ⟨chunks, packed, only⟩ :=
    (packs_greedily [bare, bare, bare, oversized] (.int 4)).1 4 rfl (by decide)
  rw [packed, ← (only _).mp greedy]

end EthBatch.Plan
