import EthBatch.Client.Schedule
import EthBatch.Proofs.Except

/-!
# No position outside a sequence

The fault of a position outside a sequence is kept for the bookkeeping of a run. Nothing that
reads foreign values reports it: not the reading of an output, and not the finding of a
destination.
-/

namespace EthBatch

/-- The result is not the fault of a position outside a sequence. -/
def InRange {α : Type} (x : Except Fault α) : Prop := x ≠ .error .badIndex

namespace InRange

variable {α β : Type}

@[simp] theorem ok (a : α) : InRange (.ok a) := nofun

@[simp] theorem error_iff {f : Fault} :
    InRange (.error f : Except Fault α) ↔ f ≠ .badIndex := by
  simp [InRange]

theorem bind {x : Except Fault α} {f : α → Except Fault β} (first : InRange x)
    (rest : ∀ a, InRange (f a)) : InRange (x >>= f) := by
  cases x with
  | error e => simpa using first
  | ok a => exact rest a

theorem map {x : Except Fault α} {f : α → β} (h : InRange x) : InRange (x.map f) := by
  cases x with
  | error e => simpa [Except.map] using h
  | ok a => simp [Except.map]

end InRange

/-! ## Outputs -/

namespace Abi.Schema

theorem inRange_noItems (v : Value) : InRange (noItems v) := by
  unfold noItems
  split <;> simp

theorem inRange_typeField (fs : Fields) : InRange (typeField fs) := by
  unfold typeField
  split <;> simp

mutual

theorem inRange_typeText : ∀ v, InRange (typeText v)
  | .record fs => by
      rw [typeText]
      apply (inRange_typeField fs).bind
      intro s
      split
      · simp
      · exact (inRange_componentTexts fs).bind fun _ => .ok _
  | .null | .bool _ | .int _ | .float _ | .decimal _ | .text _ | .bytes _ | .buffer _ | .list _
  | .tuple _ | .contract _ | .method _ => by simp [typeText]

theorem inRange_componentTexts : ∀ fs, InRange (componentTexts fs)
  | [] => .ok _
  | (k, v) :: fs => by
      rw [componentTexts]
      split
      · exact inRange_itemTexts v
      · exact inRange_componentTexts fs

theorem inRange_itemTexts : ∀ v, InRange (itemTexts v)
  | .list vs | .tuple vs => by
      rw [itemTexts]
      exact inRange_typeTexts vs
  | .null | .bool _ | .int _ | .float _ | .decimal _ | .text _ | .bytes _ | .buffer _
  | .record _ | .contract _ | .method _ => by
      rw [itemTexts]
      · exact inRange_noItems _
      · exact nofun
      · exact nofun

theorem inRange_typeTexts : ∀ vs, InRange (typeTexts vs)
  | [] => .ok _
  | v :: vs => by
      rw [typeTexts]
      exact (inRange_typeText v).bind fun _ => (inRange_typeTexts vs).bind fun _ => .ok _

end

theorem inRange_listedTexts (v : Option Value) : InRange (listedTexts v) := by
  unfold listedTexts
  split
  · simp
  · split
    · exact inRange_typeTexts _
    · simp

end Abi.Schema

theorem Call.inRange_decodeOutput (function : Abi.Entry) (data : Bytes) :
    InRange (decodeOutput function data) := by
  apply (Abi.Schema.inRange_listedTexts _).bind
  intro types
  repeat' split
  all_goals simp

/-! ## Destinations and limits -/

theorem Address.inRange_ofValue (v : Value) : InRange (ofValue v) := by
  unfold ofValue
  split <;> simp [ofValue.refuse] <;> split <;> simp

theorem Value.inRange_isAbove (v : Value) (n : Int) : InRange (v.isAbove n) := by
  unfold isAbove
  split <;> simp

namespace Chain

theorem inRange_ofChars (cs : List Char) (shown : String) : InRange (ofChars cs shown) := by
  unfold ofChars
  dsimp only
  repeat' split
  all_goals simp

theorem inRange_getD_ofBytes? (b : Bytes) {f : Fault} (h : f ≠ .badIndex) :
    InRange ((ofBytes? b).getD (.error f)) := by
  unfold ofBytes?
  dsimp only
  repeat' split
  all_goals simp [h]

theorem inRange_resolve (v : Value) : InRange (resolve v) := by
  unfold resolve
  split
  · simp
  · simp
  · exact (inRange_ofChars _ _).map
  · exact (inRange_getD_ofBytes? _ (by simp)).map
  · exact (inRange_getD_ofBytes? _ (by simp)).map
  · simp

end Chain

theorem Registry.inRange_get (r : Registry) (chain : Value) : InRange (r.get chain) :=
  ((Chain.inRange_resolve chain).bind fun _ => .ok _).map

theorem Deployment.inRange_isCreatedAfter (d : Deployment) (block : Int) :
    InRange (d.isCreatedAfter block) := by
  unfold isCreatedAfter
  split
  · simp
  · exact Value.inRange_isAbove _ _

theorem Block.inRange_height (v : Value) : InRange (height v) := by
  unfold height heightOfChars
  repeat' split
  all_goals simp

theorem Plan.inRange_chunksFor {α : Type} (cost : α → Nat) (budget : Value) (xs : List α) :
    InRange (chunksFor cost budget xs) := by
  unfold chunksFor Budget.ofValue
  repeat' split
  · simp
  · simp [Except.map]
  · exact (Value.inRange_isAbove _ _).map.map

namespace Schedule

theorem inRange_limitOfValue (style : Style) (v : Value) : InRange (limitOfValue style v) :=
  (Value.inRange_isAbove v 0).map

theorem Deadline.refusal?_ne_badIndex (style : Style) (n : Int) :
    refusal? style n ≠ some .badIndex := by
  unfold refusal?
  repeat' split
  all_goals simp

theorem Deadline.inRange_ofValue (style : Style) (v : Value) : InRange (ofValue style v) := by
  unfold ofValue
  split
  · simp
  · split <;> simp
  · split
    · simp
    · split
      · next f refused =>
        rw [InRange.error_iff]
        rintro rfl
        exact refusal?_ne_badIndex _ _ refused
      · simp

end Schedule

end EthBatch
