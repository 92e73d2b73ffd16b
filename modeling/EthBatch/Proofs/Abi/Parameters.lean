import EthBatch.Abi.Schema
import EthBatch.Proofs.Except

/-!
# Which values describe parameters

The name of a parameter's type is read from a record with a `type` that is a text; a tuple names
its components as well, and these are parameters in turn. `Schema.IsParameter` says this of a
value at any depth. A type name is read exactly from such a value, and a list of type names
exactly from a value whose items are all of this kind.
-/

namespace EthBatch.Abi.Schema

/-- A value that describes a parameter. -/
inductive IsParameter : Value → Prop where
  /-- A parameter of a type that is no tuple. -/
  | word {fs : Fields} {s : String} (typed : Fields.get? fs "type" = some (.text s))
      (plain : tupleSuffix? s = none) : IsParameter (.record fs)
  /-- A tuple that does not state its components. -/
  | empty {fs : Fields} {s : String} {suffix : List Char}
      (typed : Fields.get? fs "type" = some (.text s)) (marked : tupleSuffix? s = some suffix)
      (absent : Fields.get? fs "components" = none) : IsParameter (.record fs)
  | tuple {fs : Fields} {s : String} {suffix : List Char} {v : Value} {items : List Value}
      (typed : Fields.get? fs "type" = some (.text s)) (marked : tupleSuffix? s = some suffix)
      (components : Fields.get? fs "components" = some v) (listed : v.items? = some items)
      (parameters : ∀ w ∈ items, IsParameter w) : IsParameter (.record fs)

/-- A value whose items describe parameters. -/
def ListsParameters (v : Value) : Prop :=
  ∃ items, v.items? = some items ∧ ∀ w ∈ items, IsParameter w

theorem typeField_eq_ok {fs : Fields} {s : String} :
    typeField fs = .ok s ↔ Fields.get? fs "type" = some (.text s) := by
  unfold typeField
  split <;> simp_all

/-- Only records describe parameters, so a text or a byte string lists them if it is empty. -/
theorem noItems_eq_ok {v : Value} (list : ∀ vs, v ≠ .list vs) (tuple : ∀ vs, v ≠ .tuple vs) :
    (∃ ts, noItems v = .ok ts) ↔ ListsParameters v := by
  have record {w : Value} (h : IsParameter w) : ∃ fs, w = .record fs := by
    cases h <;> exact ⟨_, rfl⟩
  unfold noItems
  constructor
  · rintro ⟨ts, h⟩
    split at h
    · next nothing => exact ⟨[], nothing, by simp⟩
    · cases h
  · rintro ⟨items, listed, parameters⟩
    cases items with
    | nil => exact ⟨[], by rw [listed]⟩
    | cons w items =>
        obtain ⟨fs, rfl⟩ := record (parameters w List.mem_cons_self)
        cases v with
        | list vs => exact absurd rfl (list vs)
        | tuple vs => exact absurd rfl (tuple vs)
        | record fields => cases fields <;> simp [Value.items?] at listed
        | text s => cases h : s.toList <;> simp [Value.items?, h] at listed
        | bytes b => cases b <;> simp [Value.items?] at listed
        | buffer b => cases b <;> simp [Value.items?] at listed
        | _ => cases listed

theorem isParameter_record {fs : Fields} : IsParameter (.record fs) ↔
    ∃ s, Fields.get? fs "type" = some (.text s) ∧ (tupleSuffix? s = none ∨
      ∀ v, Fields.get? fs "components" = some v → ListsParameters v) := by
  constructor
  · intro h
    cases h with
    | word typed plain => exact ⟨_, typed, .inl plain⟩
    | empty typed marked absent =>
        refine ⟨_, typed, .inr ?_⟩
        intro v h
        rw [absent] at h
        cases h
    | tuple typed marked components listed parameters =>
        refine ⟨_, typed, .inr ?_⟩
        intro v h
        rw [components] at h
        cases h
        exact ⟨_, listed, parameters⟩
  · rintro ⟨s, typed, complete⟩
    cases marked : tupleSuffix? s with
    | none => exact .word typed marked
    | some suffix =>
        have complete := complete.resolve_left (by simp [marked])
        cases components : Fields.get? fs "components" with
        | none => exact .empty typed marked components
        | some v =>
            obtain ⟨items, listed, parameters⟩ := complete v components
            exact .tuple typed marked components listed parameters

mutual

/-- A type name is read exactly from a value that describes a parameter. -/
theorem typeText_isOk : ∀ v, (∃ s, typeText v = .ok s) ↔ IsParameter v
  | .record fs => by
      have components := componentTexts_isOk fs
      rw [typeText, isParameter_record]
      constructor
      · rintro ⟨t, h⟩
        obtain ⟨s, typed, h⟩ := Except.bind_eq_ok.mp h
        refine ⟨s, typeField_eq_ok.mp typed, ?_⟩
        split at h
        · next plain => exact .inl plain
        · obtain ⟨ts, read, _⟩ := Except.bind_eq_ok.mp h
          exact .inr (components.mp ⟨ts, read⟩)
      · rintro ⟨s, typed, complete⟩
        rw [typeField_eq_ok.mpr typed, Except.ok_bind]
        cases marked : tupleSuffix? s with
        | none => exact ⟨s, rfl⟩
        | some suffix =>
            obtain ⟨ts, read⟩ := components.mpr (complete.resolve_left (by simp [marked]))
            exact ⟨_, by simp only [read, Except.ok_bind]; rfl⟩
  | .null | .bool _ | .int _ | .float _ | .decimal _ | .text _ | .bytes _ | .buffer _ | .list _
  | .tuple _ | .contract _ | .method _ => by
      rw [typeText]
      · constructor
        · rintro ⟨s, h⟩
          cases h
        · intro h
          cases h
      · exact nofun

theorem componentTexts_isOk : ∀ fs : Fields, (∃ ts, componentTexts fs = .ok ts) ↔
    ∀ v, Fields.get? fs "components" = some v → ListsParameters v
  | [] => by
      rw [componentTexts]
      simp [Fields.get?]
  | (k, v) :: fs => by
      rw [componentTexts]
      by_cases here : k = "components"
      · rw [if_pos here, itemTexts_isOk v]
        simp [Fields.get?, here]
      · have miss : ("components" == k) = false := by simpa using Ne.symm here
        rw [if_neg here, componentTexts_isOk fs]
        simp only [Fields.get?, List.lookup_cons, miss]

theorem itemTexts_isOk : ∀ v, (∃ ts, itemTexts v = .ok ts) ↔ ListsParameters v
  | .list vs | .tuple vs => by
      rw [itemTexts, typeTexts_isOk vs]
      constructor
      · intro parameters
        exact ⟨vs, rfl, parameters⟩
      · rintro ⟨_, listed, parameters⟩
        cases listed
        exact parameters
  | .null | .bool _ | .int _ | .float _ | .decimal _ | .text _ | .bytes _ | .buffer _
  | .record _ | .contract _ | .method _ => by
      rw [itemTexts]
      · exact noItems_eq_ok nofun nofun
      · exact nofun
      · exact nofun

theorem typeTexts_isOk : ∀ vs : List Value, (∃ ts, typeTexts vs = .ok ts) ↔
    ∀ w ∈ vs, IsParameter w
  | [] => by
      rw [typeTexts]
      simp
  | v :: vs => by
      have first := typeText_isOk v
      have rest := typeTexts_isOk vs
      rw [typeTexts, List.forall_mem_cons, ← first, ← rest]
      constructor
      · rintro ⟨_, h⟩
        obtain ⟨t, ht, h⟩ := Except.bind_eq_ok.mp h
        obtain ⟨ts, hts, _⟩ := Except.bind_eq_ok.mp h
        exact ⟨⟨t, ht⟩, ts, hts⟩
      · rintro ⟨⟨t, ht⟩, ts, hts⟩
        exact ⟨_, by rw [ht, Except.ok_bind, hts, Except.ok_bind]⟩

end

/-- The type names of a list are read exactly if there is no list or if all of its items describe
parameters. -/
theorem listedTexts_isOk {listed : Option Value} : (∃ ts, listedTexts listed = .ok ts) ↔
    ∀ v, listed = some v → ListsParameters v := by
  cases listed with
  | none =>
      rw [listedTexts]
      simp
  | some v =>
      simp only [listedTexts, Option.some.injEq, forall_eq']
      cases items : v.items? with
      | none =>
          constructor
          · rintro ⟨ts, h⟩
            cases h
          · rintro ⟨_, listed, _⟩
            rw [items] at listed
            cases listed
      | some vs =>
          simp only [typeTexts_isOk]
          constructor
          · intro parameters
            exact ⟨vs, items, parameters⟩
          · rintro ⟨_, listed, parameters⟩
            rw [items] at listed
            cases listed
            exact parameters

end EthBatch.Abi.Schema
