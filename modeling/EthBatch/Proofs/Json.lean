import EthBatch.Json
import EthBatch.Proofs.Except

/-!
# How deep a document goes

A reader of a part of a document leaves the characters behind that part, and every container that
is open has used up its own bracket. So a document that is refused for its depth has more opening
brackets than containers may stand inside each other.
-/

namespace EthBatch.Json

open Except

variable {cs rest ds : List Char} {fuel room : Nat}

/-! ## What readers leave -/

theorem skip_suffix (cs : List Char) : skip cs <:+ cs := List.dropWhile_suffix isBlank

theorem after?_suffix {start : List Char} (h : after? start cs = some rest) : rest <:+ cs := by
  induction start generalizing cs with
  | nil =>
      obtain rfl := Option.some.inj h
      exact List.suffix_rfl
  | cons a start ih =>
      cases cs with
      | nil => cases h
      | cons c cs =>
          rw [after?] at h
          split at h
          · exact (ih h).trans (List.suffix_cons c cs)
          · cases h

theorem code?_suffix {n : Nat} (h : code? cs = some (n, rest)) : rest <:+ cs := by
  unfold code? at h
  split at h
  next a b c d tail =>
    obtain ⟨_, _, here⟩ := Option.map_eq_some_iff.mp h
    obtain rfl := congrArg Prod.snd here
    exact List.suffix_append [a, b, c, d] tail
  next => cases h

theorem coded?_suffix {c : Char} (h : coded? cs = some (c, rest)) : rest <:+ cs := by
  unfold coded? at h
  obtain ⟨⟨n, tail⟩, first, h⟩ := Option.bind_eq_some_iff.mp h
  have first := code?_suffix first
  dsimp only at h
  split at h
  · split at h
    next more again =>
      have again := (after?_suffix again).trans first
      split at h
      next m tail' second =>
        have second := (code?_suffix second).trans again
        split at h
        · obtain rfl := congrArg Prod.snd (Option.some.inj h)
          exact second
        · obtain rfl := congrArg Prod.snd (Option.some.inj h)
          exact first
      next => cases h
    next =>
      obtain rfl := congrArg Prod.snd (Option.some.inj h)
      exact first
  · split at h
    all_goals
      obtain rfl := congrArg Prod.snd (Option.some.inj h)
      exact first

theorem chars?_suffix (h : chars? fuel cs = some (ds, rest)) : rest <:+ cs := by
  induction fuel generalizing cs ds rest with
  | zero => cases h
  | succ fuel ih =>
      cases cs with
      | nil => cases h
      | cons c cs =>
          suffices rest <:+ cs from this.trans (List.suffix_cons c cs)
          unfold chars? at h
          split at h
          · obtain rfl := congrArg Prod.snd (Option.some.inj h)
            exact List.suffix_rfl
          · split at h
            · split at h
              next more =>
                obtain ⟨⟨d, tail⟩, coded, h⟩ := Option.bind_eq_some_iff.mp h
                obtain ⟨⟨_, out⟩, more', h⟩ := Option.bind_eq_some_iff.mp h
                obtain rfl := congrArg Prod.snd (Option.some.inj h)
                exact ((ih more').trans (coded?_suffix coded)).trans (List.suffix_cons 'u' more)
              next e more _ =>
                obtain ⟨d, _, h⟩ := Option.bind_eq_some_iff.mp h
                obtain ⟨⟨_, out⟩, more', h⟩ := Option.bind_eq_some_iff.mp h
                obtain rfl := congrArg Prod.snd (Option.some.inj h)
                exact (ih more').trans (List.suffix_cons e more)
              next => cases h
            · split at h
              · cases h
              · obtain ⟨⟨_, out⟩, more, h⟩ := Option.map_eq_some_iff.mp h
                obtain rfl := congrArg Prod.snd h
                exact ih more

theorem string?_suffix {s : String} (h : string? fuel cs = some (s, rest)) : rest <:+ cs := by
  obtain ⟨⟨_, out⟩, more, h⟩ := Option.map_eq_some_iff.mp h
  obtain rfl := congrArg Prod.snd h
  exact chars?_suffix more

theorem signed_suffix (cs : List Char) : (Number.signed cs).2 <:+ cs := by
  unfold Number.signed
  split
  · exact List.suffix_cons _ _
  · exact List.suffix_cons _ _
  · exact List.suffix_rfl

theorem fraction_suffix (cs : List Char) : (fraction cs).2 <:+ cs := by
  unfold fraction
  split
  · dsimp only
    split
    · exact List.suffix_rfl
    · exact (List.dropWhile_suffix _).trans (List.suffix_cons _ _)
  · exact List.suffix_rfl

theorem exponent_suffix (cs : List Char) : (exponent cs).2 <:+ cs := by
  unfold exponent
  split
  next c tail =>
    split
    · dsimp only
      split
      · exact ((List.dropWhile_suffix _).trans (signed_suffix tail)).trans (List.suffix_cons c tail)
      · exact List.suffix_rfl
    · exact List.suffix_rfl
  next => exact List.suffix_rfl

theorem number_suffix {negative : Bool} {v : Value} (h : number negative cs = .ok (v, rest)) :
    rest <:+ cs := by
  -- in whatever way the digits before the point are read, fraction and exponent follow
  have behind {tail : List Char} (sub : tail <:+ cs) : (exponent (fraction tail).2).2 <:+ cs :=
    ((exponent_suffix _).trans (fraction_suffix tail)).trans sub
  unfold number at h
  dsimp only at h
  split at h
  all_goals
    repeat' split at h
    all_goals cases h
    all_goals apply behind
  all_goals first | exact List.suffix_cons _ _ | exact List.dropWhile_suffix _

theorem word_suffix {v : Value} (h : word cs = .ok (v, rest)) : rest <:+ cs := by
  unfold word at h
  dsimp only at h
  split at h
  next found found_eq =>
    obtain rfl := Except.ok.inj h
    obtain ⟨w, _, here⟩ := List.exists_of_findSome?_eq_some found_eq
    obtain ⟨tail, after, here⟩ := Option.map_eq_some_iff.mp here
    obtain rfl := congrArg Prod.snd here
    exact after?_suffix after
  next =>
    split at h
    · exact (number_suffix h).trans (List.suffix_cons _ _)
    · exact number_suffix h

/-- What the readers of values, items and members leave with the given number of steps. -/
structure Leaves (fuel : Nat) : Prop where
  value : ∀ {room cs v rest}, value fuel room cs = .ok (v, rest) → rest <:+ cs
  items : ∀ {room cs vs rest}, items fuel room cs = .ok (vs, rest) → rest <:+ cs
  members : ∀ {room cs fs rest}, members fuel room cs = .ok (fs, rest) → rest <:+ cs

namespace Leaves

variable (h : Leaves fuel)

include h

theorem succ_value {v : Value} (read : Json.value (fuel + 1) room cs = .ok (v, rest)) :
    rest <:+ cs := by
  unfold Json.value at read
  split at read
  next tail _ =>
    split at read
    next found =>
      obtain rfl := congrArg Prod.snd (Except.ok.inj read)
      exact (string?_suffix found).trans (List.suffix_cons _ _)
    next => cases read
  next => cases read
  next tail room =>
    refine List.IsSuffix.trans ?_ (List.suffix_cons _ _)
    split at read
    next closed skipped =>
      obtain rfl := congrArg Prod.snd (Except.ok.inj read)
      exact (List.suffix_cons _ _).trans (skipped ▸ skip_suffix tail)
    next =>
      obtain ⟨⟨vs, out⟩, inside, read⟩ := bind_eq_ok.mp read
      obtain rfl := congrArg Prod.snd (Except.ok.inj read)
      exact (h.items inside).trans (skip_suffix tail)
  next => cases read
  next tail room =>
    refine List.IsSuffix.trans ?_ (List.suffix_cons _ _)
    split at read
    next closed skipped =>
      obtain rfl := congrArg Prod.snd (Except.ok.inj read)
      exact (List.suffix_cons _ _).trans (skipped ▸ skip_suffix tail)
    next =>
      obtain ⟨⟨fs, out⟩, inside, read⟩ := bind_eq_ok.mp read
      obtain rfl := congrArg Prod.snd (Except.ok.inj read)
      exact (h.members inside).trans (skip_suffix tail)
  next => exact word_suffix read

theorem succ_items {vs : List Value} (read : Json.items (fuel + 1) room cs = .ok (vs, rest)) :
    rest <:+ cs := by
  rw [Json.items] at read
  obtain ⟨⟨v, tail⟩, first, read⟩ := bind_eq_ok.mp read
  refine List.IsSuffix.trans ?_ ((h.value first).trans (skip_suffix cs))
  refine List.IsSuffix.trans ?_ (skip_suffix tail)
  dsimp only at read
  split at read
  next more skipped =>
    obtain ⟨⟨vs, out⟩, later, read⟩ := bind_eq_ok.mp read
    obtain rfl := congrArg Prod.snd (Except.ok.inj read)
    exact skipped ▸ (h.items later).trans (List.suffix_cons _ _)
  next more skipped =>
    obtain rfl := congrArg Prod.snd (Except.ok.inj read)
    exact skipped ▸ List.suffix_cons _ _
  next => cases read

theorem succ_members {fs : List (String × Value)}
    (read : Json.members (fuel + 1) room cs = .ok (fs, rest)) : rest <:+ cs := by
  rw [Json.members] at read
  refine List.IsSuffix.trans ?_ (skip_suffix cs)
  split at read
  next tail skipped =>
    rw [skipped]
    refine List.IsSuffix.trans ?_ (List.suffix_cons _ _)
    split at read
    next => cases read
    next key more found =>
      refine List.IsSuffix.trans ?_ ((skip_suffix more).trans (string?_suffix found))
      split at read
      next argument colon =>
        obtain ⟨⟨v, behind⟩, first, read⟩ := bind_eq_ok.mp read
        refine List.IsSuffix.trans ?_ (colon ▸ List.suffix_cons _ _)
        refine List.IsSuffix.trans ?_ ((h.value first).trans (skip_suffix argument))
        refine List.IsSuffix.trans ?_ (skip_suffix behind)
        dsimp only at read
        split at read
        next later skipped =>
          obtain ⟨⟨fs, out⟩, later, read⟩ := bind_eq_ok.mp read
          obtain rfl := congrArg Prod.snd (Except.ok.inj read)
          exact skipped ▸ (h.members later).trans (List.suffix_cons _ _)
        next later skipped =>
          obtain rfl := congrArg Prod.snd (Except.ok.inj read)
          exact skipped ▸ List.suffix_cons _ _
        next => cases read
      next => cases read
  next => cases read

end Leaves

theorem leaves (fuel : Nat) : Leaves fuel := by
  induction fuel with
  | zero => constructor <;> intros <;> simp_all [value, items, members]
  | succ fuel ih => exact ⟨ih.succ_value, ih.succ_items, ih.succ_members⟩

/-! ## How deep readers go -/

/-- The number of brackets that open a container. -/
def openers (cs : List Char) : Nat := cs.countP fun c => c == '[' || c == '\x7b'

theorem openers_le (h : rest <:+ cs) : openers rest ≤ openers cs := h.sublist.countP_le

theorem number_avoids_tooDeep (negative : Bool) (cs : List Char) :
    Avoids .tooDeep (number negative cs) := by
  unfold number
  dsimp only
  repeat' split
  all_goals simp

theorem word_avoids_tooDeep (cs : List Char) : Avoids .tooDeep (word cs) := by
  unfold word
  dsimp only
  split
  · simp
  · split <;> exact number_avoids_tooDeep _ _

/-- Readers of values, items and members that find no room have met more opening brackets than
there was room for. -/
structure Sinks (fuel : Nat) : Prop where
  value : ∀ {room cs}, value fuel room cs = .error .tooDeep → room < openers cs
  items : ∀ {room cs}, items fuel room cs = .error .tooDeep → room < openers cs
  members : ∀ {room cs}, members fuel room cs = .error .tooDeep → room < openers cs

namespace Sinks

variable (h : Sinks fuel)

include h

theorem succ_value (deep : Json.value (fuel + 1) room cs = .error .tooDeep) :
    room < openers cs := by
  unfold Json.value at deep
  split at deep
  next => split at deep <;> cases deep
  next tail => simp [openers]
  next tail room =>
    suffices room < openers tail by simpa [openers] using this
    refine Nat.lt_of_lt_of_le ?_ (openers_le (skip_suffix tail))
    split at deep
    next => cases deep
    next => exact h.items ((bind_eq_error.mp deep).resolve_right (by simp))
  next tail => simp [openers]
  next tail room =>
    suffices room < openers tail by simpa [openers] using this
    refine Nat.lt_of_lt_of_le ?_ (openers_le (skip_suffix tail))
    split at deep
    next => cases deep
    next => exact h.members ((bind_eq_error.mp deep).resolve_right (by simp))
  next => exact absurd deep (word_avoids_tooDeep _)

theorem succ_items (deep : Json.items (fuel + 1) room cs = .error .tooDeep) :
    room < openers cs := by
  rw [Json.items] at deep
  refine Nat.lt_of_lt_of_le ?_ (openers_le (skip_suffix cs))
  rcases bind_eq_error.mp deep with here | ⟨⟨v, tail⟩, first, deep⟩
  · exact h.value here
  · refine Nat.lt_of_lt_of_le ?_ (openers_le ((leaves fuel).value first))
    refine Nat.lt_of_lt_of_le ?_ (openers_le (skip_suffix tail))
    dsimp only at deep
    split at deep
    next more skipped =>
      have later := h.items ((bind_eq_error.mp deep).resolve_right (by simp))
      exact skipped ▸ Nat.lt_of_lt_of_le later (openers_le (List.suffix_cons _ _))
    next => cases deep
    next => cases deep

theorem succ_members (deep : Json.members (fuel + 1) room cs = .error .tooDeep) :
    room < openers cs := by
  rw [Json.members] at deep
  refine Nat.lt_of_lt_of_le ?_ (openers_le (skip_suffix cs))
  split at deep
  next tail skipped =>
    refine Nat.lt_of_lt_of_le ?_ (openers_le (skipped ▸ List.suffix_cons _ _))
    split at deep
    next => cases deep
    next key more found =>
      refine Nat.lt_of_lt_of_le ?_ (openers_le ((skip_suffix more).trans (string?_suffix found)))
      split at deep
      next argument colon =>
        refine Nat.lt_of_lt_of_le ?_ (openers_le (colon ▸ List.suffix_cons _ _))
        refine Nat.lt_of_lt_of_le ?_ (openers_le (skip_suffix argument))
        rcases bind_eq_error.mp deep with here | ⟨⟨v, behind⟩, first, deep⟩
        · exact h.value here
        · refine Nat.lt_of_lt_of_le ?_ (openers_le ((leaves fuel).value first))
          refine Nat.lt_of_lt_of_le ?_ (openers_le (skip_suffix behind))
          dsimp only at deep
          split at deep
          next later skipped =>
            have later := h.members ((bind_eq_error.mp deep).resolve_right (by simp))
            exact skipped ▸ Nat.lt_of_lt_of_le later (openers_le (List.suffix_cons _ _))
          next => cases deep
          next => cases deep
      next => cases deep
  next => cases deep

end Sinks

theorem sinks (fuel : Nat) : Sinks fuel := by
  induction fuel with
  | zero => constructor <;> intros <;> simp_all [value, items, members]
  | succ fuel ih => exact ⟨ih.succ_value, ih.succ_items, ih.succ_members⟩

/-- A document that is refused for its depth has more opening brackets than containers may stand
inside each other. -/
theorem openers_of_read_eq_tooDeep [Platform] {s : String} (h : read s = .error .tooDeep) :
    Platform.jsonDepth < openers s.toList := by
  refine Nat.lt_of_lt_of_le ?_ (openers_le (skip_suffix s.toList))
  rcases bind_eq_error.mp h with deep | ⟨⟨v, rest⟩, _, h⟩
  · exact (sinks _).value deep
  · dsimp only at h
    split at h <;> cases h

/-- Opening brackets in a row need as much room as there are. -/
theorem value_of_openers (room : Nat) {fuel : Nat} (steps : 2 * room < fuel) (cs : List Char) :
    value fuel room (List.replicate (room + 1) '[' ++ cs) = .error .tooDeep := by
  induction room generalizing fuel with
  | zero =>
      obtain ⟨fuel, rfl⟩ := Nat.exists_eq_add_of_lt steps
      rfl
  | succ room ih =>
      obtain ⟨fuel, rfl⟩ : ∃ n, fuel = n + 2 := ⟨fuel - 2, by omega⟩
      have inner : value fuel room ('[' :: (List.replicate room '[' ++ cs)) = .error .tooDeep := by
        simpa [List.replicate_succ] using ih (by omega : 2 * room < fuel)
      have skipped : skip ('[' :: (List.replicate room '[' ++ cs)) =
          '[' :: (List.replicate room '[' ++ cs) := by
        simp [skip, isBlank]
      simp [List.replicate_succ, value, items, skipped, inner]

theorem read_of_openers [Platform] {s : String}
    (h : s.toList = List.replicate (Platform.jsonDepth + 1) '[' ++ cs) :
    read s = .error .tooDeep := by
  have skipped : skip s.toList = s.toList := by
    rw [h, List.replicate_succ]
    simp [skip, isBlank]
  have steps : 2 * Platform.jsonDepth < 2 * s.toList.length + 2 := by
    rw [h, List.length_append, List.length_replicate]
    omega
  have deep := value_of_openers Platform.jsonDepth steps cs
  rw [← h] at deep
  simp [read, skipped, deep]

end EthBatch.Json
