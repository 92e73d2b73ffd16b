import EthBatch.Proofs.Plan.Greedy

/-!
# Packing takes the fewest chunks

There are many ways to cut calls into chunks that stay within a budget. The greedy one stays ahead
of each of them: after as many chunks, the calls that it has left are an end of the calls that the
other way has left. So it is never the greedy way that needs one more chunk.
-/

namespace EthBatch.Plan

section

variable {α : Type}

/-- Calls cut into chunks within a budget, which only a chunk of a single call may exceed. -/
structure Fits (cost : α → Nat) (budget : Nat) (xs : List α) (cs : List (List α)) : Prop where
  flatten : cs.flatten = xs
  nonempty : ∀ chunk ∈ cs, chunk ≠ []
  within : ∀ chunk ∈ cs, chunk.length = 1 ∨ total cost chunk ≤ budget

instance [DecidableEq α] (cost : α → Nat) (budget : Nat) (xs : List α) (cs : List (List α)) :
    Decidable (Fits cost budget xs cs) :=
  decidable_of_iff (cs.flatten = xs ∧ (∀ chunk ∈ cs, chunk ≠ []) ∧
      ∀ chunk ∈ cs, chunk.length = 1 ∨ total cost chunk ≤ budget)
    ⟨fun ⟨flatten, nonempty, within⟩ => ⟨flatten, nonempty, within⟩,
      fun h => ⟨h.flatten, h.nonempty, h.within⟩⟩

variable {cost : α → Nat} {budget : Nat} {xs ys : List α} {cs ds : List (List α)} {c d : List α}

theorem Greedy.fits (h : Greedy cost budget xs cs) : Fits cost budget xs cs := by
  refine ⟨h.flatten, h.nonempty, ?_⟩
  intro chunk mem
  have some := List.length_pos_iff.mpr (h.nonempty chunk mem)
  by_cases single : chunk.length = 1
  · exact .inl single
  · exact .inr (h.within chunk mem (by omega))

theorem Fits.tail (h : Fits cost budget xs (c :: cs)) : Fits cost budget cs.flatten cs :=
  ⟨rfl, fun chunk mem => h.nonempty chunk (List.mem_cons_of_mem c mem),
    fun chunk mem => h.within chunk (List.mem_cons_of_mem c mem)⟩

/-- What a greedy way has left after a chunk is an end of what another way has left after one, if
this was so before. The other chunk would otherwise hold the whole greedy one and the call behind
it, which exceed the budget. -/
theorem Greedy.suffix_tail (h : Greedy cost budget xs (c :: cs))
    (h' : Fits cost budget ys (d :: ds)) (ahead : xs <:+ ys) : cs.flatten <:+ ds.flatten := by
  obtain ⟨before, rfl⟩ := ahead
  have same : (before ++ c) ++ cs.flatten = d ++ ds.flatten := by
    rw [List.append_assoc, ← List.flatten_cons, h.flatten, ← List.flatten_cons, h'.flatten]
  by_contra behind
  have longer : ¬ cs.flatten.length ≤ ds.flatten.length := by
    intro le
    exact behind (List.suffix_of_suffix_length_le ⟨before ++ c, same⟩ ⟨d, rfl⟩ le)
  have lengths : (before ++ c).length + cs.flatten.length = d.length + ds.flatten.length := by
    rw [← List.length_append, same, List.length_append]
  obtain ⟨more, rfl⟩ : ∃ more, d = before ++ c ++ more :=
    (List.prefix_of_prefix_length_le ⟨_, same⟩ ⟨_, rfl⟩ (by omega)).imp fun _ => Eq.symm
  cases more with
  | nil =>
      rw [List.append_nil] at lengths
      omega
  | cons x more =>
      have next : cs.flatten = x :: (more ++ ds.flatten) := by simpa using same
      have exceeds := h.lt_total_append next
      have some := List.length_pos_iff.mpr (h.nonempty c List.mem_cons_self)
      have fits := (h'.within _ List.mem_cons_self).resolve_left (by
        simp only [List.length_append, List.length_cons]
        omega)
      simp only [total_append, total_cons, total_nil] at exceeds fits
      omega

/-- No way to cut calls has fewer chunks than a greedy way to cut an end of them. -/
theorem Greedy.length_le_of_suffix (h : Greedy cost budget xs cs) (h' : Fits cost budget ys ds)
    (ahead : xs <:+ ys) : cs.length ≤ ds.length := by
  induction cs generalizing xs ys ds with
  | nil => exact Nat.zero_le _
  | cons c cs ih =>
      cases ds with
      | nil =>
          obtain rfl : ys = [] := h'.flatten.symm
          have empty : c ++ cs.flatten = [] := h.flatten.trans (List.suffix_nil.mp ahead)
          exact absurd (List.append_eq_nil_iff.mp empty).1 (h.nonempty c List.mem_cons_self)
      | cons d ds =>
          have rest := ih h.tail h'.tail (h.suffix_tail h' ahead)
          rw [List.length_cons, List.length_cons]
          omega

end

/-- A whole budget of one or more is a limit. -/
theorem chunksFor_of_number {α : Type} {cost : α → Nat} {batchSize : Value} {b : Int}
    (whole : batchSize.number? = some b) (positive : 1 ≤ b) (xs : List α) :
    chunksFor cost batchSize xs = .ok (pack cost b.toNat xs) := by
  cases xs with
  | nil => rfl
  | cons x xs =>
      have limited : Budget.ofInt b = .limit b.toNat := if_neg (by omega)
      rw [chunksFor, List.isEmpty_cons, if_neg Bool.false_ne_true, Budget.ofValue_of_number whole,
        limited]
      rfl

/-- For a whole budget of one or more, the chunks of calls stay within the budget, up to single
calls that exceed it, and no other such way to cut the calls has fewer chunks. -/
theorem packs_fewest (calls : List SubCall) (batchSize : Value) {b : Int}
    (whole : batchSize.number? = some b) (positive : 1 ≤ b) :
    ∃ chunks, chunksFor SubCall.cost batchSize calls = .ok chunks ∧
      Fits SubCall.cost b.toNat calls chunks ∧
      ∀ cs, Fits SubCall.cost b.toNat calls cs → chunks.length ≤ cs.length := by
  have greedy := greedy_pack SubCall.cost b.toNat calls
  refine ⟨pack SubCall.cost b.toNat calls, chunksFor_of_number whole positive calls,
    greedy.fits, ?_⟩
  intro cs other
  exact greedy.length_le_of_suffix other (List.suffix_refl calls)

/-- Closing a chunk before it is full takes one chunk more. -/
theorem packs_fewest_oversized :
    chunksFor SubCall.cost (.int 4) [bare, bare, oversized, bare] =
        .ok [[bare, bare], [oversized], [bare]] ∧
      Fits SubCall.cost 4 [bare, bare, oversized, bare] [[bare], [bare], [oversized], [bare]] ∧
      ∀ cs, Fits SubCall.cost 4 [bare, bare, oversized, bare] cs → 3 ≤ cs.length := by
  have packed : chunksFor SubCall.cost (.int 4) [bare, bare, oversized, bare] =
      .ok [[bare, bare], [oversized], [bare]] :=
    chunksFor_of_number (b := 4) rfl (by decide) _
  obtain ⟨chunks, same, _, fewest⟩ :=
    packs_fewest [bare, bare, oversized, bare] (.int 4) rfl (by decide)
  obtain rfl := Except.ok.inj (packed.symm.trans same)
  exact ⟨packed, by decide, fewest⟩

end EthBatch.Plan
