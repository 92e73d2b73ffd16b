import EthBatch.Proofs.Abi.Inputs
import EthBatch.Proofs.Abi.TypeName

/-!
# Functions with typeless inputs

Before a function is looked for, the selectors of all functions of the interface are computed. The
lookup can meet an input without a type only there: behind it, every function has a signature. So a
lookup ends in the fault of such an input exactly if one stands in the first function without a
signature. A number that is too long is met behind the selectors, if the name of a type holds one.
-/

namespace EthBatch

open Except

namespace Fault

/-- Is the fault one that the types of inputs have when they are read: an input has none, or its
name holds a number that is too long? -/
def isOfTypes : Fault → Bool
  | .noAttribute => true
  | .typeName .longNumber => true
  | _ => false

theorem ne_of_isOfTypes {f g : Fault} (ofTypes : f.isOfTypes = true) (other : g.isOfTypes = false) :
    g ≠ f := by
  rintro rfl
  rw [ofTypes] at other
  cases other

end Fault

namespace Abi

variable {f : Fault}

/-- A fault of another kind is none of types. -/
theorem avoids_other (ofTypes : f.isOfTypes = true) {α : Type} {g : Fault}
    (other : g.isOfTypes = false) : Avoids f (.error g : Except Fault α) :=
  Avoids.error_iff.mpr (Fault.ne_of_isOfTypes ofTypes other)

/-! ## Arguments in the order of the inputs -/

namespace Align

theorem isOfTypes_missing (name : Value) : (missing name).isOfTypes = false := by
  unfold missing
  repeat' split
  all_goals rfl

theorem avoids_componentValue (ofTypes : f.isOfTypes = true) (fs : Fields) (c : Value) :
    Avoids f (componentValue fs c) := by
  unfold componentValue
  split
  · split
    · exact avoids_other ofTypes rfl
    · split
      · simp
      · exact avoids_other ofTypes (isOfTypes_missing _)
  · exact avoids_other ofTypes rfl

theorem avoids_structValues (ofTypes : f.isOfTypes = true) (cs : List Value) (v : Value) :
    Avoids f (structValues cs v) := by
  unfold structValues
  split
  · simp
  · exact Avoids.mapM fun c _ => avoids_componentValue ofTypes _ c
  · exact avoids_other ofTypes rfl

theorem avoids_atDepth (ofTypes : f.isOfTypes = true) {g : Value → Except Fault Value}
    (h : ∀ v, Avoids f (g v)) (name : Option Value) (depth : Nat) (v : Value) :
    Avoids f (atDepth name g depth v) := by
  induction depth generalizing v with
  | zero => exact h v
  | succ depth ih =>
      unfold atDepth
      split
      · exact (Avoids.mapM fun w _ => ih w).bind fun _ _ => .ok _ _
      · cases name with
        | none => exact avoids_other ofTypes rfl
        | some name => exact avoids_other ofTypes (isOfTypes_missing name)
      · exact avoids_other ofTypes rfl

theorem avoids_alignEach {cs : List Value} (h : ∀ c ∈ cs, ∀ v, Avoids f (align c v))
    (vs : List Value) : Avoids f (alignEach cs vs) := by
  induction cs generalizing vs with
  | nil => simp [alignEach]
  | cons c cs ih =>
      obtain ⟨first, rest⟩ := List.forall_mem_cons.mp h
      cases vs with
      | nil => simp [alignEach]
      | cons v vs =>
          rw [alignEach]
          exact (first v).bind fun _ _ => (ih rest vs).bind fun _ _ => .ok _ _

theorem avoids_alignStruct (ofTypes : f.isOfTypes = true) {c : Value}
    (h : ∀ items, c.items? = some items → ∀ w ∈ items, ∀ v, Avoids f (align w v)) (v : Value) :
    Avoids f (alignStruct c v) := by
  have sequence {cs : List Value} (each : ∀ w ∈ cs, ∀ v, Avoids f (align w v)) :
      Avoids f (do
        let vs ← structValues cs v
        let vs ← alignEach cs vs
        .ok (Value.tuple vs)) :=
    (avoids_structValues ofTypes cs v).bind fun vs _ =>
      (avoids_alignEach each vs).bind fun _ _ => .ok _ _
  unfold alignStruct
  split
  · exact sequence (h _ rfl)
  · exact sequence (h _ rfl)
  · refine Avoids.bind ?_ fun _ _ => (avoids_structValues ofTypes [] v).bind fun _ _ => .ok _ _
    unfold Schema.noItems
    split
    · simp
    · exact avoids_other ofTypes rfl

theorem avoids_alignWithin (ofTypes : f.isOfTypes = true) {fs : Fields}
    (h : ∀ c items, Fields.get? fs "components" = some c → c.items? = some items →
      ∀ w ∈ items, ∀ v, Avoids f (align w v)) (v : Value) : Avoids f (alignWithin fs v) := by
  induction fs with
  | nil =>
      rw [alignWithin]
      exact avoids_other ofTypes rfl
  | cons field fs ih =>
      obtain ⟨k, c⟩ := field
      rw [alignWithin]
      by_cases here : k = "components"
      · rw [if_pos here]
        exact avoids_alignStruct ofTypes (h c · (by simp [Fields.get?, here])) v
      · have miss : ("components" == k) = false := by simpa using Ne.symm here
        rw [if_neg here]
        refine ih fun c items found => h c items ?_
        rw [Fields.get?, List.lookup_cons, miss]
        exact found

/-- Putting an argument in order does not ask anything for its type. -/
theorem avoids_align (ofTypes : f.isOfTypes = true) : ∀ c v, Avoids f (align c v) := by
  apply Schema.Inherited.holds
  constructor
  · intro fs components v
    rw [align]
    split
    · exact avoids_other ofTypes rfl
    · split
      · simp
      · exact avoids_atDepth ofTypes (avoids_alignWithin ofTypes components) _ _ v
  · intro c record v
    rw [align]
    · exact avoids_other ofTypes rfl
    · exact record

end Align

namespace Entry

variable {e : Entry} {args : List Value} {kwargs : Fields}

/-! ## Signatures -/

/-- Does the function list its inputs, each of which describes an input? -/
def DescribesInputs (e : Entry) : Prop := ∃ vs, inputs e = .ok vs ∧ ∀ w ∈ vs, Schema.IsInput w

/-- Does the function list an input without a type, with nothing else wrong before it? -/
def ReachesTypeless (e : Entry) : Prop := ∃ vs, inputs e = .ok vs ∧ Schema.ReachesTypeless vs

/-- Reading the types of the inputs of a function, down to the numbers in them, does not meet a
fault. -/
structure Spares (f : Fault) (e : Entry) : Prop where
  texts {vs : List Value} (listed : inputs e = .ok vs) : Avoids f (Schema.inputTexts vs)
  types {vs : List Value} {ts : List String} (listed : inputs e = .ok vs)
    (read : Schema.inputTexts vs = .ok ts) {t : String} (mem : t ∈ ts) {g : TypeFault}
    (refused : Kind.ofText t = .error g) : Fault.typeName g ≠ f

theorem DescribesInputs.spares (h : DescribesInputs e) : Spares .noAttribute e where
  texts listed := by
    obtain ⟨vs, listed', described⟩ := h
    obtain rfl := Except.ok.inj (listed.symm.trans listed')
    obtain ⟨ts, read⟩ := Schema.inputTexts_isOk.mpr described
    simp [read]
  types _ _ _ _ _ := by simp

/-- No number in the types of the inputs is too long. -/
def IsShort (e : Entry) : Prop := ∀ vs ts, inputs e = .ok vs → Schema.inputTexts vs = .ok ts →
  ∀ t ∈ ts, Kind.hasLongNumber 0 t.toList = false

theorem IsShort.spares (h : IsShort e) : Spares (.typeName .longNumber) e where
  texts _ := Schema.avoids_inputTexts _
  types listed read t mem g refused := by
    rintro ⟨rfl⟩
    have long := (Kind.ofText_eq_longNumber.mp refused).2
    rw [h _ _ listed read t mem] at long
    cases long

theorem avoids_inputs (ofTypes : f.isOfTypes = true) (e : Entry) : Avoids f (inputs e) := by
  unfold inputs
  repeat' split
  all_goals first | exact .ok _ _ | exact avoids_other ofTypes rfl

theorem signature_isOk : (∃ t, signature e = .ok t) ↔ DescribesInputs e := by
  simp only [signature, Except.bind_eq_ok, DescribesInputs, ← Schema.inputTexts_isOk]
  constructor
  · rintro ⟨_, vs, listed, ts, read, _⟩
    exact ⟨vs, listed, ts, read⟩
  · rintro ⟨vs, listed, ts, read⟩
    exact ⟨_, vs, listed, ts, read, rfl⟩

theorem selector_isOk : (∃ b, selector e = .ok b) ↔ DescribesInputs e := by
  simp only [selector, Except.map_eq_ok, ← signature_isOk]
  constructor
  · rintro ⟨_, t, read, _⟩
    exact ⟨t, read⟩
  · rintro ⟨t, read⟩
    exact ⟨_, t, read, rfl⟩

theorem selector_eq_noAttribute : selector e = .error .noAttribute ↔ ReachesTypeless e := by
  simp only [selector, Except.map_eq_error, signature, Except.bind_eq_error, ReachesTypeless,
    ← Schema.inputTexts_eq_noAttribute]
  constructor
  · rintro (unlisted | ⟨vs, listed, fails | ⟨_, _, impossible⟩⟩)
    · exact absurd unlisted (avoids_inputs rfl e)
    · exact ⟨vs, listed, fails⟩
    · cases impossible
  · rintro ⟨vs, listed, fails⟩
    exact .inr ⟨vs, listed, .inl fails⟩

/-! ## Candidates -/

theorem avoids_inputName (ofTypes : f.isOfTypes = true) (v : Value) : Avoids f (inputName v) := by
  unfold inputName
  repeat' split
  all_goals first | exact .ok _ _ | exact avoids_other ofTypes rfl

theorem avoids_normalize (ofTypes : f.isOfTypes = true) (vs args : List Value) (kwargs : Fields) :
    Avoids f (normalize vs args kwargs) := by
  unfold normalize
  split
  · exact avoids_other ofTypes rfl
  · split
    · simp
    · refine (Avoids.mapM fun v _ => avoids_inputName ofTypes v).bind fun names _ => ?_
      dsimp only
      split
      · exact avoids_other ofTypes rfl
      · simp

theorem avoids_arguments (ofTypes : f.isOfTypes = true) (e : Entry) (args : List Value)
    (kwargs : Fields) : Avoids f (arguments e args kwargs) :=
  (avoids_inputs ofTypes e).bind fun vs _ =>
    (avoids_normalize ofTypes vs args kwargs).bind fun ws _ =>
      Align.avoids_alignEach (fun c _ v => Align.avoids_align ofTypes c v) ws

section

variable [Platform]

theorem avoids_acceptsEach {ps : List (String × Value)} (types : ∀ p ∈ ps, ∀ g,
    Kind.ofText p.1 = .error g → Fault.typeName g ≠ f) : Avoids f (acceptsEach ps) := by
  induction ps with
  | nil => simp [acceptsEach]
  | cons p ps ih =>
      obtain ⟨first, rest⟩ := List.forall_mem_cons.mp types
      rw [acceptsEach]
      split
      · next long => exact Avoids.error_iff.mpr (first _ long)
      · simp
      · split
        · exact ih rest
        · simp

/-- Trying arguments on a function reads the types of its inputs at most. -/
theorem Spares.avoids_takes (ofTypes : f.isOfTypes = true) (h : Spares f e) :
    Avoids f (takes args kwargs e) := by
  unfold takes
  split
  · exact avoids_other ofTypes rfl
  · refine (avoids_inputs ofTypes e).bind fun vs listed => ?_
    split
    · exact avoids_other ofTypes rfl
    · simp
    · split
      · simp
      · split
        · exact avoids_other ofTypes rfl
        · exact avoids_other ofTypes rfl
        · simp
        · refine (h.texts listed).bind fun ts read => avoids_acceptsEach ?_
          rintro ⟨t, v⟩ mem g refused
          exact h.types listed read (List.of_mem_zip mem).1 refused

end

theorem avoids_isNamed (ofTypes : f.isOfTypes = true) (name : String) (e : Entry) :
    Avoids f (isNamed name e) := by
  unfold isNamed
  split
  · exact avoids_other ofTypes rfl
  all_goals simp

theorem avoids_hasInputs (ofTypes : f.isOfTypes = true) (n : Nat) (e : Entry) :
    Avoids f (hasInputs n e) :=
  (avoids_inputs ofTypes e).map

theorem Spares.avoids_signature (ofTypes : f.isOfTypes = true) (h : Spares f e) :
    Avoids f (signature e) :=
  (avoids_inputs ofTypes e).bind fun _ listed => (h.texts listed).bind fun _ _ => .ok _ _

end Entry

namespace Lookup

variable {functions : List Entry} {e : Entry} {args : List Value} {kwargs : Fields}

/-! ## The lookup -/

theorem validate_eq_noAttribute : validate functions = .error .noAttribute ↔
    (∀ e ∈ functions, Fields.get? e "type" ≠ none) ∧ ∃ before e after,
      functions = before ++ e :: after ∧ (∀ e ∈ before, e.DescribesInputs) ∧ e.ReachesTypeless := by
  have typed : (functions.any fun e => (Fields.get? e "type").isNone) = false ↔
      ∀ e ∈ functions, Fields.get? e "type" ≠ none := by
    simp
  rw [validate, ← typed]
  cases functions.any fun e => (Fields.get? e "type").isNone with
  | true => simp
  | false =>
      simp only [Bool.false_eq_true, if_false, Except.bind_eq_error, Except.mapM_eq_error,
        Entry.selector_isOk, Entry.selector_eq_noAttribute, true_and]
      constructor
      · rintro (reached | ⟨selectors, _, clash⟩)
        · exact reached
        · split at clash <;> cases clash
      · exact .inl

theorem describesInputs_of_validate (h : validate functions = .ok ()) (mem : e ∈ functions) :
    e.DescribesInputs := by
  unfold validate at h
  split at h
  · cases h
  · obtain ⟨selectors, read, _⟩ := Except.bind_eq_ok.mp h
    exact Entry.selector_isOk.mp (Except.mapM_isOk.mp ⟨selectors, read⟩ e mem)

theorem avoids_longNumber_validate (functions : List Entry) :
    Avoids (.typeName .longNumber) (validate functions) := by
  unfold validate
  split
  · simp
  · refine (Avoids.mapM fun e _ => ?_).bind fun _ _ => ?_
    · exact Avoids.map ((Entry.avoids_inputs rfl e).bind fun _ _ =>
        (Schema.avoids_inputTexts _).bind fun _ _ => .ok _ _)
    · split <;> simp

section

variable {identifier : String} {found : List Entry}

/-- What is left after the number of inputs. -/
def counted (functions : List Entry) (identifier : String) (n : Nat) : Except Fault (List Entry) :=
  if mentionsNoInputs identifier then .ok functions else functions.filterM (Entry.hasInputs n)

theorem mem_of_mem_counted {n : Nat} (h : counted functions identifier n = .ok found)
    (mem : e ∈ found) : e ∈ functions := by
  unfold counted at h
  split at h
  · obtain rfl := Except.ok.inj h
    exact mem
  · exact mem_of_mem_filterM h mem

theorem avoids_counted (ofTypes : f.isOfTypes = true) (functions : List Entry)
    (identifier : String) (n : Nat) : Avoids f (counted functions identifier n) := by
  unfold counted
  split
  · simp
  · exact Avoids.filterM fun e _ => Entry.avoids_hasInputs ofTypes n e

variable [Platform]

/-- What is left after the number of inputs, the name and the arguments. -/
def fitting (functions : List Entry) (identifier : String) (args : List Value) (kwargs : Fields) :
    Except Fault (List Entry) :=
  let n := args.length + kwargs.length
  if n = 0 then functions.filterM (Entry.isNamed (nameOf identifier))
  else do
    let counted ← counted functions identifier n
    let named ← counted.filterM (Entry.isNamed (nameOf identifier))
    named.filterM (Entry.takes args kwargs)

theorem candidates_eq : candidates functions identifier args kwargs =
    if identifier ∈ specialNames then .ok []
    else fitting functions identifier args kwargs >>= fun found =>
      if hasTypes identifier then found.filterM (Entry.hasSignature identifier) else .ok found := by
  unfold candidates fitting counted
  split
  · rfl
  · dsimp only
    repeat' split
    all_goals simp only [bind_assoc, Except.ok_bind]

theorem mem_of_mem_fitting (h : fitting functions identifier args kwargs = .ok found)
    (mem : e ∈ found) : e ∈ functions := by
  unfold fitting at h
  dsimp only at h
  split at h
  · exact mem_of_mem_filterM h mem
  · obtain ⟨all, count, h⟩ := bind_eq_ok.mp h
    obtain ⟨named, name, h⟩ := bind_eq_ok.mp h
    exact mem_of_mem_counted count (mem_of_mem_filterM name (mem_of_mem_filterM h mem))

theorem mem_of_mem_candidates (h : candidates functions identifier args kwargs = .ok found)
    (mem : e ∈ found) : e ∈ functions := by
  rw [candidates_eq] at h
  split at h
  · cases h
    cases mem
  · obtain ⟨fit, chosen, h⟩ := bind_eq_ok.mp h
    split at h
    · exact mem_of_mem_fitting chosen (mem_of_mem_filterM h mem)
    · obtain rfl := Except.ok.inj h
      exact mem_of_mem_fitting chosen mem

theorem avoids_fitting (ofTypes : f.isOfTypes = true) (h : ∀ e ∈ functions, e.Spares f) :
    Avoids f (fitting functions identifier args kwargs) := by
  have name (es : List Entry) : Avoids f (es.filterM (Entry.isNamed (nameOf identifier))) :=
    Avoids.filterM fun e _ => Entry.avoids_isNamed ofTypes _ e
  unfold fitting
  dsimp only
  split
  · exact name functions
  · refine (avoids_counted ofTypes functions identifier _).bind fun all count =>
      (name all).bind fun named narrowed => Avoids.filterM fun e mem => ?_
    exact (h e (mem_of_mem_counted count (mem_of_mem_filterM narrowed mem))).avoids_takes ofTypes

theorem avoids_candidates (ofTypes : f.isOfTypes = true) (h : ∀ e ∈ functions, e.Spares f) :
    Avoids f (candidates functions identifier args kwargs) := by
  rw [candidates_eq]
  split
  · simp
  · refine (avoids_fitting ofTypes h).bind fun fit chosen => ?_
    split
    · exact Avoids.filterM fun e mem =>
        ((h e (mem_of_mem_fitting chosen mem)).avoids_signature ofTypes).map
    · simp

end

variable [Platform] {identifier : Value}

theorem mem_of_find (h : find functions identifier args kwargs = .ok e) :
    e ∈ functions ∧ e.DescribesInputs := by
  unfold find at h
  split at h
  · cases h
  · obtain ⟨_, valid, h⟩ := bind_eq_ok.mp h
    suffices e ∈ functions from ⟨this, describesInputs_of_validate valid this⟩
    split at h
    · obtain ⟨found, chosen, h⟩ := bind_eq_ok.mp h
      split at h
      · obtain rfl := Except.ok.inj h
        exact mem_of_mem_candidates chosen List.mem_cons_self
      · split at h <;> cases h
    · cases h

/-- Behind the selectors, a lookup reads the types of inputs at most. -/
theorem avoids_find (ofTypes : f.isOfTypes = true) (invalid : Avoids f (validate functions))
    (h : validate functions = .ok () → ∀ e ∈ functions, e.Spares f) :
    Avoids f (find functions identifier args kwargs) := by
  unfold find
  split
  · exact avoids_other ofTypes rfl
  · refine invalid.bind fun _ valid => ?_
    split
    · refine (avoids_candidates ofTypes (h valid)).bind fun found _ => ?_
      split
      · simp
      · split <;> exact avoids_other ofTypes rfl
    · exact avoids_other ofTypes rfl

/-- A lookup meets an input without a type only when the selectors are computed, and then
whatever is looked for. -/
theorem find_eq_noAttribute : find functions identifier args kwargs = .error .noAttribute ↔
    (kwargs.any fun k => reservedNames.contains k.1) = false ∧
      validate functions = .error .noAttribute := by
  by_cases invalid : validate functions = .error .noAttribute
  · unfold find
    cases reserved : kwargs.any fun k => reservedNames.contains k.1 <;> simp [invalid]
  · refine iff_of_false ?_ fun h => invalid h.2
    exact avoids_find rfl invalid fun valid e mem => (describesInputs_of_validate valid mem).spares

/-- The calldata of a function take its arguments and the types of its inputs. -/
theorem avoids_calldata (ofTypes : f.isOfTypes = true) (h : e.Spares f) :
    Avoids f (calldata e args kwargs) := by
  refine (Entry.avoids_arguments ofTypes e args kwargs).bind fun ws _ =>
    (Entry.avoids_inputs ofTypes e).bind fun vs listed => (h.texts listed).bind fun ts read =>
      (h.avoids_signature ofTypes).map.bind fun selector _ => ?_
  split
  · next g unknown =>
    obtain ⟨before, t, after, rfl, -, refused⟩ := Kind.ofTexts_eq_error.mp unknown
    exact Avoids.error_iff.mpr (h.types listed read (by simp) refused)
  · split
    · exact avoids_other ofTypes rfl
    · simp

/-- Calldata are a selector and an encoding of arguments of named types. -/
theorem calldata_eq_ok {data : Bytes} (h : calldata e args kwargs = .ok data) :
    ∃ selector names ks vs body, Entry.selector e = .ok selector ∧ Kind.ofTexts names = .ok ks ∧
      Kind.encodeAll ks vs = .ok body ∧ data = selector ++ body := by
  obtain ⟨vs, -, h⟩ := bind_eq_ok.mp h
  obtain ⟨inputs, -, h⟩ := bind_eq_ok.mp h
  obtain ⟨names, -, h⟩ := bind_eq_ok.mp h
  obtain ⟨selector, selected, h⟩ := bind_eq_ok.mp h
  split at h
  · cases h
  next ks known =>
    split at h
    · cases h
    next body encoded =>
      exact ⟨selector, names, ks, vs, body, selected, known, encoded, (Except.ok.inj h).symm⟩

end Lookup

end Abi

end EthBatch
