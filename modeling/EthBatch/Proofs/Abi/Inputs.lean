import EthBatch.Abi.Lookup
import EthBatch.Proofs.Except

/-!
# Which values describe inputs

The type of an input is read from a text, which names it, or from a record with a `type` that is a
text; a tuple must state its components, and these are inputs in turn. Anything else in place of an
input is a fault of the interface. A value that is neither a text nor a record has no `type` to ask
for at all, which is a fault of its own: it is the result if no other fault comes before it, in the
order in which inputs and components are read.
-/

namespace EthBatch.Abi

namespace Schema

/-- A value that describes an input. -/
inductive IsInput : Value → Prop where
  | name (s : String) : IsInput (.text s)
  /-- An input of a type that is no tuple. -/
  | word {fs : Fields} {s : String} (typed : Fields.get? fs "type" = some (.text s))
      (plain : tupleSuffix? s = none) : IsInput (.record fs)
  | tuple {fs : Fields} {s : String} {suffix : List Char} {v : Value} {items : List Value}
      (typed : Fields.get? fs "type" = some (.text s)) (marked : tupleSuffix? s = some suffix)
      (components : Fields.get? fs "components" = some v) (listed : v.items? = some items)
      (inputs : ∀ w ∈ items, IsInput w) : IsInput (.record fs)

/-- A value that is neither a text nor a record, or a tuple with such a component behind components
that are inputs. -/
inductive IsTypeless : Value → Prop where
  | value {v : Value} (text : ∀ s, v ≠ .text s) (record : ∀ fs, v ≠ .record fs) : IsTypeless v
  | component {fs : Fields} {s : String} {suffix : List Char} {v w : Value}
      {before after : List Value} (typed : Fields.get? fs "type" = some (.text s))
      (marked : tupleSuffix? s = some suffix) (components : Fields.get? fs "components" = some v)
      (listed : v.items? = some (before ++ w :: after)) (inputs : ∀ u ∈ before, IsInput u)
      (typeless : IsTypeless w) : IsTypeless (.record fs)

/-- Among values that describe inputs, the first one that does not is typeless. -/
def ReachesTypeless (items : List Value) : Prop :=
  ∃ before w after, items = before ++ w :: after ∧ (∀ u ∈ before, IsInput u) ∧ IsTypeless w

theorem inputTexts_eq_mapM (vs : List Value) : inputTexts vs = vs.mapM inputText := by
  induction vs with
  | nil => rw [inputTexts]; rfl
  | cons v vs ih =>
      rw [inputTexts, List.mapM_cons, ih]
      rfl

theorem inputText_of_typeless {v : Value} (text : ∀ s, v ≠ .text s)
    (record : ∀ fs, v ≠ .record fs) : inputText v = .error .noAttribute := by
  rw [inputText]
  · exact text
  · exact record

theorem inputComponentTexts_eq (fs : Fields) : inputComponentTexts fs =
    match Fields.get? fs "components" with
    | some v => inputItemTexts v
    | none => .error (.missingField (some "components")) := by
  induction fs with
  | nil => rw [inputComponentTexts, Fields.get?, List.lookup_nil]
  | cons f fs ih =>
      obtain ⟨k, v⟩ := f
      rw [inputComponentTexts]
      by_cases here : k = "components"
      · simp [Fields.get?, here]
      · have miss : ("components" == k) = false := by simpa using Ne.symm here
        rw [if_neg here, ih, Fields.get?, Fields.get?, List.lookup_cons, miss]

/-! ## Components one by one -/

/-- What one meets in a value that is no sequence are texts and numbers. -/
theorem atom_of_mem_items {v : Value} {items : List Value} (list : ∀ vs, v ≠ .list vs)
    (tuple : ∀ vs, v ≠ .tuple vs) (listed : v.items? = some items) {w : Value} (h : w ∈ items) :
    (∃ s, w = .text s) ∨ ∃ n, w = .int n := by
  cases v with
  | list vs => exact absurd rfl (list vs)
  | tuple vs => exact absurd rfl (tuple vs)
  | record fs =>
      obtain rfl := Option.some.inj listed
      obtain ⟨f, _, rfl⟩ := List.mem_map.mp h
      exact .inl ⟨_, rfl⟩
  | text s =>
      obtain rfl := Option.some.inj listed
      obtain ⟨c, _, rfl⟩ := List.mem_map.mp h
      exact .inl ⟨_, rfl⟩
  | bytes b | buffer b =>
      obtain rfl := Option.some.inj listed
      obtain ⟨x, _, rfl⟩ := List.mem_map.mp h
      exact .inr ⟨_, rfl⟩
  | _ => cases listed

/-- Components are read as inputs in whatever they are listed. -/
theorem inputItemTexts_eq (v : Value) : inputItemTexts v =
    match v.items? with
    | some items => items.mapM inputText
    | none => .error .wrongKind := by
  by_cases sequence : (∃ vs, v = .list vs) ∨ ∃ vs, v = .tuple vs
  · rcases sequence with ⟨vs, rfl⟩ | ⟨vs, rfl⟩
    · rw [inputItemTexts, inputTexts_eq_mapM, Value.items?]
    · rw [inputItemTexts, inputTexts_eq_mapM, Value.items?]
  · simp only [not_or, not_exists] at sequence
    obtain ⟨list, tuple⟩ := sequence
    rw [inputItemTexts, plainTexts]
    cases listed : v.items? with
    | none => rfl
    | some items =>
        apply Except.mapM_congr
        intro w h
        rcases atom_of_mem_items list tuple listed h with ⟨s, rfl⟩ | ⟨n, rfl⟩
        · rw [inputText]
        · rw [inputText_of_typeless (by simp) (by simp)]
    · exact list
    · exact tuple

/-- A property that a record has if its components have it, and that all other values have. -/
structure Inherited (P : Value → Prop) : Prop where
  record : ∀ fs, (∀ v items, Fields.get? fs "components" = some v → v.items? = some items →
    ∀ w ∈ items, P w) → P (.record fs)
  other : ∀ v, (∀ fs, v ≠ .record fs) → P v

namespace Inherited

variable {P : Value → Prop}

mutual

/-- Induction over the components of a parameter. -/
theorem holds (h : Inherited P) : ∀ v, P v
  | .record fs => h.record fs (fields h fs)
  | .null | .bool _ | .int _ | .float _ | .decimal _ | .text _ | .bytes _ | .buffer _ | .list _
  | .tuple _ | .contract _ | .method _ => h.other _ nofun

theorem fields (h : Inherited P) : ∀ (fs : Fields) (v : Value) (items : List Value),
    Fields.get? fs "components" = some v → v.items? = some items → ∀ w ∈ items, P w
  | [], _, _, found, _ => nomatch found
  | (k, c) :: fs, v, items, found, listed => by
      by_cases here : k = "components"
      · obtain rfl : c = v := by simpa [Fields.get?, here] using found
        exact ofItems h c items listed
      · have miss : ("components" == k) = false := by simpa using Ne.symm here
        rw [Fields.get?, List.lookup_cons, miss] at found
        exact fields h fs v items found listed

theorem ofItems (h : Inherited P) : ∀ (v : Value) (items : List Value), v.items? = some items →
    ∀ w ∈ items, P w
  | .list vs, items, listed => by
      obtain rfl := Option.some.inj listed
      exact each h vs
  | .tuple vs, items, listed => by
      obtain rfl := Option.some.inj listed
      exact each h vs
  | .null, _, listed | .bool _, _, listed | .int _, _, listed | .float _, _, listed
  | .decimal _, _, listed | .text _, _, listed | .bytes _, _, listed | .buffer _, _, listed
  | .record _, _, listed | .contract _, _, listed | .method _, _, listed => by
      intro w mem
      rcases atom_of_mem_items (by simp) (by simp) listed mem with ⟨s, rfl⟩ | ⟨n, rfl⟩
      · exact h.other _ nofun
      · exact h.other _ nofun

theorem each (h : Inherited P) : ∀ vs : List Value, ∀ w ∈ vs, P w
  | [] => nofun
  | v :: vs => List.forall_mem_cons.mpr ⟨holds h v, each h vs⟩

end

end Inherited

/-! ## Inputs that are read, and inputs without a type -/

variable {fs : Fields}

/-- The components of a tuple are read one after the other. -/
theorem inputComponentTexts_eq_ok {ts : List String} : inputComponentTexts fs = .ok ts ↔
    ∃ v items, Fields.get? fs "components" = some v ∧ v.items? = some items ∧
      items.mapM inputText = .ok ts := by
  rw [inputComponentTexts_eq]
  cases Fields.get? fs "components" with
  | none => simp
  | some v => cases listed : v.items? <;> simp [inputItemTexts_eq, listed]

theorem inputComponentTexts_eq_noAttribute : inputComponentTexts fs = .error .noAttribute ↔
    ∃ v items, Fields.get? fs "components" = some v ∧ v.items? = some items ∧
      items.mapM inputText = .error .noAttribute := by
  rw [inputComponentTexts_eq]
  cases Fields.get? fs "components" with
  | none => simp
  | some v => cases listed : v.items? <;> simp [inputItemTexts_eq, listed]

/-- A type name is read exactly from a value that describes an input. -/
theorem inputText_isOk : ∀ v, (∃ t, inputText v = .ok t) ↔ IsInput v := by
  apply Inherited.holds
  constructor
  · intro fs components
    rw [inputText]
    constructor
    · rintro ⟨t, h⟩
      split at h
      · next s typed =>
        split at h
        · next plain => exact .word typed plain
        · next suffix marked =>
          obtain ⟨ts, read, _⟩ := Except.bind_eq_ok.mp h
          obtain ⟨v, items, stated, listed, read⟩ := inputComponentTexts_eq_ok.mp read
          refine .tuple typed marked stated listed ?_
          intro w mem
          exact (components v items stated listed w mem).mp (Except.mapM_isOk.mp ⟨ts, read⟩ w mem)
      · cases h
    · intro h
      cases h with
      | word typed plain => exact ⟨_, by simp only [typed, plain]; rfl⟩
      | tuple typed marked stated listed inputs =>
          obtain ⟨ts, read⟩ := Except.mapM_isOk.mpr fun w mem =>
            (components _ _ stated listed w mem).mpr (inputs w mem)
          have read := inputComponentTexts_eq_ok.mpr ⟨_, _, stated, listed, read⟩
          exact ⟨_, by simp only [typed, marked, read, Except.ok_bind]; rfl⟩
  · intro v record
    cases v with
    | text s => exact iff_of_true ⟨s, by rw [inputText]⟩ (.name s)
    | record fs => exact absurd rfl (record fs)
    | _ =>
        rw [inputText_of_typeless (by simp) (by simp)]
        exact iff_of_false (by simp) nofun

theorem mapM_inputText_eq_noAttribute {items : List Value}
    (each : ∀ w ∈ items, inputText w = .error .noAttribute ↔ IsTypeless w) :
    items.mapM inputText = .error .noAttribute ↔ ReachesTypeless items := by
  simp only [Except.mapM_eq_error, ReachesTypeless, inputText_isOk]
  constructor
  · rintro ⟨before, w, after, rfl, inputs, here⟩
    exact ⟨before, w, after, rfl, inputs, (each w (by simp)).mp here⟩
  · rintro ⟨before, w, after, rfl, inputs, typeless⟩
    exact ⟨before, w, after, rfl, inputs, (each w (by simp)).mpr typeless⟩

/-- Reading a type name ends with the fault of a value without a type exactly if there is one. -/
theorem inputText_eq_noAttribute : ∀ v, inputText v = .error .noAttribute ↔ IsTypeless v := by
  apply Inherited.holds
  constructor
  · intro fs components
    rw [inputText]
    constructor
    · intro h
      split at h
      · next s typed =>
        split at h
        · cases h
        · next suffix marked =>
          have read := (Except.bind_eq_error.mp h).resolve_right (by simp)
          obtain ⟨v, items, stated, listed, read⟩ := inputComponentTexts_eq_noAttribute.mp read
          obtain ⟨before, w, after, rfl, inputs, typeless⟩ :=
            (mapM_inputText_eq_noAttribute (components v items stated listed)).mp read
          exact .component typed marked stated listed inputs typeless
      · cases h
    · intro h
      cases h with
      | value _ record => exact absurd rfl (record fs)
      | component typed marked stated listed inputs typeless =>
          have read := (mapM_inputText_eq_noAttribute (components _ _ stated listed)).mpr
            ⟨_, _, _, rfl, inputs, typeless⟩
          have read := inputComponentTexts_eq_noAttribute.mpr ⟨_, _, stated, listed, read⟩
          simp only [typed, marked, read, Except.error_bind]
  · intro v record
    cases v with
    | text s =>
        rw [inputText]
        refine iff_of_false nofun ?_
        intro h
        cases h with
        | value text => exact text s rfl
    | record fs => exact absurd rfl (record fs)
    | _ =>
        rw [inputText_of_typeless (by simp) (by simp)]
        exact iff_of_true rfl (.value (by simp) (by simp))

/-- The type names of several inputs are read exactly from values that describe inputs. -/
theorem inputTexts_isOk {items : List Value} :
    (∃ ts, inputTexts items = .ok ts) ↔ ∀ w ∈ items, IsInput w := by
  simp only [inputTexts_eq_mapM, Except.mapM_isOk, inputText_isOk]

theorem inputTexts_eq_noAttribute {items : List Value} :
    inputTexts items = .error .noAttribute ↔ ReachesTypeless items := by
  rw [inputTexts_eq_mapM]
  exact mapM_inputText_eq_noAttribute fun w _ => inputText_eq_noAttribute w

/-- The names of inputs are put together and not taken apart, so no number in them is too long. -/
theorem avoids_inputText : ∀ v, Except.Avoids (.typeName .longNumber) (inputText v) := by
  apply Inherited.holds
  constructor
  · intro fs components
    rw [inputText]
    split
    · split
      · simp
      · refine Except.Avoids.bind ?_ fun _ _ => .ok _ _
        rw [inputComponentTexts_eq]
        split
        · next v stated =>
          rw [inputItemTexts_eq]
          split
          · next items listed => exact Except.Avoids.mapM (components v items stated listed)
          · simp
        · simp
    · simp
  · intro v record
    cases v with
    | text s =>
        rw [inputText]
        exact .ok _ _
    | record fs => exact absurd rfl (record fs)
    | _ =>
        rw [inputText_of_typeless (by simp) (by simp)]
        simp

theorem avoids_inputTexts (vs : List Value) :
    Except.Avoids (.typeName .longNumber) (inputTexts vs) := by
  rw [inputTexts_eq_mapM]
  exact Except.Avoids.mapM fun w _ => avoids_inputText w

end Schema

end EthBatch.Abi
