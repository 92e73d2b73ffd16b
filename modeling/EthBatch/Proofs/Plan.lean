import EthBatch.Plan
import EthBatch.Proofs.Except
import Mathlib

/-!
# Chunks make up the calls

Whatever the budget, the chunks one after the other are the calls in their order, and no chunk
is empty. A call is found by its place in its chunk and the calls in the chunks before.
-/

namespace EthBatch.Plan

variable {α : Type} (cost : α → Nat)

theorem flatten_packFrom (budget : Nat) (current : List α) (used : Nat) (xs : List α) :
    (packFrom cost budget current used xs).flatten = current.reverse ++ xs := by
  induction xs generalizing current used with
  | nil => simp [packFrom]
  | cons x xs ih =>
      simp only [packFrom]
      split
      · rw [List.flatten_cons, ih, List.reverse_singleton, List.singleton_append]
      · rw [ih, List.reverse_cons, List.append_assoc, List.singleton_append]

theorem ne_nil_of_mem_packFrom {budget : Nat} {current : List α} {used : Nat} {xs chunk : List α}
    (some : current ≠ [] ∨ xs ≠ []) (h : chunk ∈ packFrom cost budget current used xs) :
    chunk ≠ [] := by
  induction xs generalizing current used with
  | nil =>
      rw [packFrom, List.mem_singleton] at h
      rw [h, ne_eq, List.reverse_eq_nil_iff]
      simpa using some
  | cons x xs ih =>
      rw [packFrom] at h
      split at h
      · next full =>
        rcases List.mem_cons.mp h with rfl | h
        · simp_all
        · exact ih (.inl (by simp)) h
      · exact ih (.inl (by simp)) h

/-- The chunks are made of the calls in their order. -/
theorem flatten_chunks (budget : Budget) (xs : List α) :
    (chunks cost budget xs).flatten = xs := by
  cases budget with
  | unlimited => cases xs <;> simp [chunks]
  | limit b =>
      cases xs with
      | nil => rfl
      | cons x xs => exact flatten_packFrom cost b [] 0 (x :: xs)

theorem ne_nil_of_mem_chunks {budget : Budget} {xs chunk : List α}
    (h : chunk ∈ chunks cost budget xs) : chunk ≠ [] := by
  cases xs with
  | nil => cases budget <;> simp [chunks, pack] at h
  | cons x xs =>
      cases budget with
      | unlimited =>
          obtain rfl : chunk = x :: xs := by simpa [chunks] using h
          simp
      | limit b => exact ne_nil_of_mem_packFrom cost (.inr (by simp)) h

variable {cost} {budget : Value} {xs : List α} {cs : List (List α)}

theorem chunksFor_eq_ok (h : chunksFor cost budget xs = .ok cs) :
    ∃ b, cs = chunks cost b xs := by
  unfold chunksFor at h
  split at h
  · next empty =>
    obtain rfl := Except.ok.inj h
    exact ⟨.unlimited, by simp [chunks, empty]⟩
  · obtain ⟨b, _, rfl⟩ := Except.map_eq_ok.mp h
    exact ⟨b, rfl⟩

theorem flatten_chunksFor (h : chunksFor cost budget xs = .ok cs) : cs.flatten = xs := by
  obtain ⟨b, rfl⟩ := chunksFor_eq_ok h
  exact flatten_chunks cost b xs

theorem ne_nil_of_mem_chunksFor (h : chunksFor cost budget xs = .ok cs) {chunk : List α}
    (mem : chunk ∈ cs) : chunk ≠ [] := by
  obtain ⟨b, rfl⟩ := chunksFor_eq_ok h
  exact ne_nil_of_mem_chunks cost mem

/-! ## Places -/

/-- An item of a chunk stands behind the items of the chunks before it. -/
theorem getElem?_flatten {ls : List (List α)} {k j : Nat} {l : List α} (h : ls[k]? = some l)
    (inside : j < l.length) : ls.flatten[((ls.map List.length).take k).sum + j]? = l[j]? := by
  induction ls generalizing k with
  | nil => cases h
  | cons first ls ih =>
      cases k with
      | zero =>
          obtain rfl : first = l := by simpa using h
          simp only [List.take_zero, List.sum_nil, Nat.zero_add, List.flatten_cons]
          exact List.getElem?_append_left inside
      | succ k =>
          have rest := ih (by simpa using h)
          rw [List.flatten_cons, List.map_cons, List.take_succ_cons, List.sum_cons,
            List.getElem?_append_right (by omega), ← rest]
          congr 1
          omega

/-- Every item has a place in one of the chunks. -/
theorem exists_place {ls : List (List α)} {i : Nat} (h : i < ls.flatten.length) :
    ∃ k j l, ls[k]? = some l ∧ j < l.length ∧ i = ((ls.map List.length).take k).sum + j := by
  induction ls generalizing i with
  | nil => simp at h
  | cons first ls ih =>
      by_cases here : i < first.length
      · exact ⟨0, i, first, rfl, here, by simp⟩
      · have rest : i - first.length < ls.flatten.length := by
          rw [List.flatten_cons, List.length_append] at h
          omega
        obtain ⟨k, j, l, hl, inside, place⟩ := ih rest
        refine ⟨k + 1, j, l, by simpa using hl, inside, ?_⟩
        rw [List.map_cons, List.take_succ_cons, List.sum_cons]
        omega

end EthBatch.Plan
