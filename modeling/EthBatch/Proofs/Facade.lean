import EthBatch.Facade
import EthBatch.Proofs.Except
import Mathlib.Data.List.Induction

/-!
# What a facade holds

A facade writes its state first, and then the functions of its interface into the same namespace,
one after the other. What is found under a name in the end is the function of that name if the
interface has one, and else what was there before. So the state survives unless a function bears the
name of a part of it, and a few names cannot be written at all.
-/

namespace EthBatch

namespace Facade

open Except

variable {f g : Facade} {name other : String} {names : List String} {entry target interface : Value}
variable {entries : List Value} {c : Client} {a : Address}

/-! ## Attributes -/

@[simp] theorem get?_set_self (f : Facade) (name : String) (x : Attribute) :
    (f.set name x).get? name = some x :=
  List.lookup_cons_self

@[simp] theorem get?_set_of_ne (f : Facade) (x : Attribute) (h : other ≠ name) :
    (f.set name x).get? other = f.get? other := by
  have kept (ps : List (String × Attribute)) :
      (ps.filter (·.1 ≠ name)).lookup other = ps.lookup other := by
    induction ps with
    | nil => rfl
    | cons p ps ih =>
        by_cases same : p.1 = name
        · rw [List.filter_cons_of_neg (by simp [same]), ih, List.lookup_cons, same,
            beq_false_of_ne h]
        · rw [List.filter_cons_of_pos (by simp [same]), List.lookup_cons, List.lookup_cons, ih]
  rw [get?, get?, set, List.lookup_cons, beq_false_of_ne h]
  exact kept f.attributes

/-- Nothing is found under a name that is not there. -/
theorem lookup_eq_none_iff_not_mem {α : Type} {ps : List (String × α)} :
    ps.lookup name = none ↔ name ∉ ps.map Prod.fst := by
  rw [List.lookup_eq_none_iff, List.mem_map]
  constructor
  · rintro free ⟨p, mem, rfl⟩
    simpa using free p mem
  · intro free p mem
    simpa using fun same => free ⟨p, mem, same.symm⟩

/-! ## The functions of an interface -/

/-- The fields are those of a function that only reads. -/
def ReadsOnly (fs : Fields) : Prop :=
  Fields.get? fs "stateMutability" = some (.text "view") ∨
    Fields.get? fs "stateMutability" = some (.text "pure")

/-- An interface has a function of a name that only reads. -/
def Exposes (entries : List Value) (name : String) : Prop :=
  ∃ fs, .record fs ∈ entries ∧ ReadsOnly fs ∧ Fields.get? fs "name" = some (.text name)

/-- An entry is a record, and has a name if it only reads. -/
def HasName (entry : Value) : Prop :=
  ∃ fs, entry = .record fs ∧
    (ReadsOnly fs → ∃ name, Fields.get? fs "name" = some (.text name))

/-- The name of an entry that only reads. -/
def viewText? (entry : Value) : Option String :=
  match viewName entry with
  | .ok (some (.text name)) => some name
  | _ => none

/-- The names of the functions that only read, in the order of the entries. -/
def viewNames (entries : List Value) : List String := entries.filterMap viewText?

theorem viewName_record (fs : Fields) :
    (ReadsOnly fs → viewName (.record fs) = viewName.named fs) ∧
    (¬ ReadsOnly fs → viewName (.record fs) = .ok none) := by
  constructor
  · rintro (view | pure)
    · simp only [viewName, view]
    · simp only [viewName, pure]
  · intro other
    rw [ReadsOnly, not_or] at other
    unfold viewName
    dsimp only
    split
    · exact absurd ‹_› other.1
    · exact absurd ‹_› other.2
    · rfl

theorem viewName_eq_some {v : Value} : viewName entry = .ok (some v) ↔
    ∃ fs, entry = .record fs ∧ ReadsOnly fs ∧ Fields.get? fs "name" = some v := by
  cases entry with
  | record fs =>
      by_cases reads : ReadsOnly fs
      · rw [(viewName_record fs).1 reads, viewName.named]
        cases named : Fields.get? fs "name" <;> simp [reads, named]
      · rw [(viewName_record fs).2 reads]
        simp [reads]
  | _ => simp [viewName]

/-- What an entry shows is either that it does not only read, or its name. -/
theorem hasName_iff : HasName entry ↔
    viewName entry = .ok none ∨ ∃ name, viewName entry = .ok (some (.text name)) := by
  cases entry with
  | record fs =>
      by_cases reads : ReadsOnly fs
      · rw [(viewName_record fs).1 reads, viewName.named]
        cases named : Fields.get? fs "name" <;> simp [HasName, reads, named]
      · rw [(viewName_record fs).2 reads]
        simp [HasName, reads]
  | _ => simp [HasName, viewName]

theorem viewText?_eq_some : viewText? entry = some name ↔
    ∃ fs, entry = .record fs ∧ ReadsOnly fs ∧ Fields.get? fs "name" = some (.text name) := by
  rw [← viewName_eq_some, viewText?]
  split
  · next other read => simp [read]
  · next unread =>
    refine iff_of_false (Option.some_ne_none name).symm ?_
    exact unread name

theorem mem_viewNames : name ∈ viewNames entries ↔ Exposes entries name := by
  simp only [viewNames, List.mem_filterMap, viewText?_eq_some, Exposes]
  constructor
  · rintro ⟨_, mem, fs, rfl, rest⟩
    exact ⟨fs, mem, rest⟩
  · rintro ⟨fs, mem, rest⟩
    exact ⟨_, mem, fs, rfl, rest⟩

/-- An entry can be exposed if it has a name in case it needs one, and the name can be exposed. -/
theorem exposeAll_cons_eq_ok : f.exposeAll (entry :: entries) = .ok g ↔ HasName entry ∧
    ∃ h, (viewText? entry).toList.foldlM expose f = .ok h ∧ h.exposeAll entries = .ok g := by
  rw [hasName_iff, exposeAll, viewText?]
  cases viewName entry with
  | error fault => simp
  | ok found =>
      cases found with
      | none => simp [pure, Except.pure]
      | some v => cases v <;> simp [bind_eq_ok]

/-- The entries can be exposed if they have names and the names can be exposed one by one. -/
theorem exposeAll_eq_ok : f.exposeAll entries = .ok g ↔
    (∀ entry ∈ entries, HasName entry) ∧ (viewNames entries).foldlM expose f = .ok g := by
  induction entries generalizing f with
  | nil => simp [exposeAll, viewNames, pure, Except.pure]
  | cons entry entries ih =>
      have names : viewNames (entry :: entries) =
          (viewText? entry).toList ++ viewNames entries := by
        rw [viewNames, List.filterMap_cons]
        cases viewText? entry <;> rfl
      rw [exposeAll_cons_eq_ok, names, List.foldlM_append, bind_eq_ok, List.forall_mem_cons]
      simp only [ih]
      constructor
      · rintro ⟨here, h, first, later, rest⟩
        exact ⟨⟨here, later⟩, h, first, rest⟩
      · rintro ⟨⟨here, later⟩, h, first, rest⟩
        exact ⟨here, h, first, later, rest⟩

/-! ## Exposing names one by one -/

/-- A name is exposed if there is a table and the name is not sealed. -/
theorem expose_eq_ok : f.expose name = .ok g ↔ ∃ table, f.get? tableKey = some (.table table) ∧
    sealedNames.lookup name = none ∧ g = (f.set tableKey (.table
      (if table.contains name then table else table ++ [name]))).set name (.function name) := by
  rw [expose]
  split
  · next table found =>
    dsimp only
    cases sealedNames.lookup name <;> simp [found, eq_comm]
  · next lost =>
    refine iff_of_false nofun ?_
    rintro ⟨table, found, -⟩
    exact lost table found

theorem foldlM_concat_eq_ok : (names ++ [name]).foldlM expose f = .ok g ↔
    ∃ h, names.foldlM expose f = .ok h ∧ h.expose name = .ok g := by
  rw [List.foldlM_append, bind_eq_ok]
  simp

/-- What has been exposed stays a function. -/
theorem get?_of_mem (exposed : names.foldlM expose f = .ok g) (mem : name ∈ names) :
    g.get? name = some (.function name) := by
  induction names using List.reverseRecOn generalizing g with
  | nil => cases mem
  | append_singleton names last ih =>
      obtain ⟨h, before, step⟩ := foldlM_concat_eq_ok.mp exposed
      obtain ⟨table, found, -, rfl⟩ := expose_eq_ok.mp step
      by_cases here : name = last
      · rw [here, get?_set_self]
      · have earlier : name ∈ names := by simpa [here] using mem
        have stays := ih before earlier
        -- A function in place of the table would have kept the last name from being exposed.
        have other : name ≠ tableKey := by
          rintro rfl
          cases found.symm.trans stays
        rw [get?_set_of_ne _ _ here, get?_set_of_ne _ _ other, stays]

/-- What has another name is not touched, apart from the table. -/
theorem get?_of_not_mem (exposed : names.foldlM expose f = .ok g) (absent : name ∉ names)
    (other : name ≠ tableKey) : g.get? name = f.get? name := by
  induction names using List.reverseRecOn generalizing g with
  | nil =>
      obtain rfl := Except.ok.inj exposed
      rfl
  | append_singleton names last ih =>
      rw [List.mem_append, List.mem_singleton, not_or] at absent
      obtain ⟨h, before, step⟩ := foldlM_concat_eq_ok.mp exposed
      obtain ⟨table, -, -, rfl⟩ := expose_eq_ok.mp step
      rw [get?_set_of_ne _ _ absent.2, get?_set_of_ne _ _ other, ih before absent.1]

/-- No name that has been exposed is sealed. -/
theorem not_sealed_of_mem (exposed : names.foldlM expose f = .ok g) (mem : name ∈ names) :
    sealedNames.lookup name = none := by
  induction names using List.reverseRecOn generalizing g with
  | nil => cases mem
  | append_singleton names last ih =>
      obtain ⟨h, before, step⟩ := foldlM_concat_eq_ok.mp exposed
      obtain ⟨-, -, free, -⟩ := expose_eq_ok.mp step
      by_cases here : name = last
      · rwa [here]
      · exact ih before (by simpa [here] using mem)

theorem eraseDups_concat (names : List String) (last : String) : (names ++ [last]).eraseDups =
    if names.eraseDups.contains last then names.eraseDups else names.eraseDups ++ [last] := by
  rw [List.eraseDups_append]
  by_cases known : last ∈ names <;> simp [known, List.removeAll, List.eraseDups_cons]

/-- The table lists every name once, in the order in which they come first. -/
theorem get?_tableKey (exposed : names.foldlM expose f = .ok g) (intact : tableKey ∉ names)
    (fresh : f.get? tableKey = some (.table [])) :
    g.get? tableKey = some (.table names.eraseDups) := by
  induction names using List.reverseRecOn generalizing g with
  | nil =>
      obtain rfl := Except.ok.inj exposed
      exact fresh
  | append_singleton names last ih =>
      rw [List.mem_append, List.mem_singleton, not_or] at intact
      obtain ⟨h, before, step⟩ := foldlM_concat_eq_ok.mp exposed
      obtain ⟨table, found, -, rfl⟩ := expose_eq_ok.mp step
      obtain rfl : names.eraseDups = table := by
        have := (ih before intact.1).symm.trans found
        cases this
        rfl
      rw [get?_set_of_ne _ _ intact.2, get?_set_self, eraseDups_concat]

/-- Names can be exposed if none of them is sealed and the table bears none of them. -/
theorem foldlM_expose_isOk (free : ∀ name ∈ names, sealedNames.lookup name = none)
    (intact : tableKey ∉ names) (fresh : f.get? tableKey = some (.table [])) :
    ∃ g, names.foldlM expose f = .ok g := by
  induction names using List.reverseRecOn with
  | nil => exact ⟨f, rfl⟩
  | append_singleton names last ih =>
      rw [List.mem_append, List.mem_singleton, not_or] at intact
      obtain ⟨h, before⟩ := ih (fun name mem => free name (List.mem_append_left _ mem)) intact.1
      have step := expose_eq_ok.mpr ⟨_, get?_tableKey before intact.1 fresh,
        free last (List.mem_append_right _ (List.mem_singleton_self _)), rfl⟩
      exact ⟨_, foldlM_concat_eq_ok.mpr ⟨h, before, step⟩⟩

/-! ## Setting up -/

/-- The names of the parts of the state. -/
def stateKeys : List String := [clientKey, targetKey, interfaceKey, tableKey]

/-- The names under which no function can be exposed without damage. -/
def reservedNames : List String := stateKeys ++ sealedNames.map Prod.fst

/-- A facade in which the state is written, and no function yet. -/
def withState (f : Facade) (c : Client) (a : Address) (entries : List Value) : Facade :=
  (((f.set clientKey (.client c)).set targetKey (.target a)).set interfaceKey
    (.interface entries)).set tableKey (.table [])

/-- A facade keeps the state that it was set up with, and its table lists each function that only
reads once. -/
structure Keeps (f : Facade) (c : Client) (a : Address) (entries : List Value) : Prop where
  client : f.get? clientKey = some (.client c)
  target : f.get? targetKey = some (.target a)
  interface : f.get? interfaceKey = some (.interface entries)
  table : f.get? tableKey = some (.table (viewNames entries).eraseDups)

/-- A facade can be set up for a target that is one, with an interface that can be read and whose
names can be exposed. -/
theorem setup_eq_ok [Platform] : f.setup c target interface = .ok g ↔ ∃ a entries,
    Address.ofValue target = .ok a ∧ Abi.Interface.read interface = .ok entries ∧
    (∀ entry ∈ entries, HasName entry) ∧
    (viewNames entries).foldlM expose (f.withState c a entries) = .ok g := by
  simp only [setup, bind_eq_ok, exposeAll_eq_ok]
  constructor
  · rintro ⟨a, valid, entries, read, rest⟩
    exact ⟨a, entries, valid, read, rest⟩
  · rintro ⟨a, entries, valid, read, rest⟩
    exact ⟨a, valid, entries, read, rest⟩

theorem get?_withState_of_not_mem (f : Facade) (other : name ∉ stateKeys) :
    (f.withState c a entries).get? name = f.get? name := by
  simp only [stateKeys, List.mem_cons, List.not_mem_nil, or_false, not_or] at other
  obtain ⟨client, target, interface, table⟩ := other
  rw [withState, get?_set_of_ne _ _ table, get?_set_of_ne _ _ interface, get?_set_of_ne _ _ target,
    get?_set_of_ne _ _ client]

section

variable (exposed : (viewNames entries).foldlM expose (f.withState c a entries) = .ok g)
include exposed

/-- Every function that only reads is found under its name. -/
theorem get?_of_exposes (exposes : Exposes entries name) : g.get? name = some (.function name) :=
  get?_of_mem exposed (mem_viewNames.mpr exposes)

/-- Any other name that is no part of the state stands for what it stood for before. -/
theorem get?_of_not_exposes (hidden : ¬ Exposes entries name) (other : name ∉ stateKeys) :
    g.get? name = f.get? name := by
  have absent : name ∉ viewNames entries := fun mem => hidden (mem_viewNames.mp mem)
  have untouched : name ≠ tableKey := by
    rintro rfl
    exact other (by simp [stateKeys])
  rw [get?_of_not_mem exposed absent untouched, get?_withState_of_not_mem f other]

/-- The state is kept if no function bears the name of a part of it. -/
theorem keeps_of_exposed (free : ∀ key ∈ stateKeys, ¬ Exposes entries key) :
    g.Keeps c a entries := by
  have absent (key : String) (mem : key ∈ stateKeys) : key ∉ viewNames entries :=
    fun exposes => free key mem (mem_viewNames.mp exposes)
  refine ⟨?_, ?_, ?_, ?_⟩
  · rw [get?_of_not_mem exposed (absent clientKey (by decide)) (by decide)]
    rfl
  · rw [get?_of_not_mem exposed (absent targetKey (by decide)) (by decide)]
    rfl
  · rw [get?_of_not_mem exposed (absent interfaceKey (by decide)) (by decide)]
    rfl
  · exact get?_tableKey exposed (absent tableKey (by decide)) rfl

/-- A function that bears the name of a part of the state takes its place. -/
theorem not_keeps_of_exposes {key : String} (mem : key ∈ stateKeys)
    (exposes : Exposes entries key) : ¬ g.Keeps c a entries := by
  intro keeps
  have taken := get?_of_exposes exposed exposes
  simp only [stateKeys, List.mem_cons, List.not_mem_nil, or_false] at mem
  obtain rfl | rfl | rfl | rfl := mem
  · exact nomatch keeps.client.symm.trans taken
  · exact nomatch keeps.target.symm.trans taken
  · exact nomatch keeps.interface.symm.trans taken
  · exact nomatch keeps.table.symm.trans taken

end

/-- A facade is set up, and keeps its state, exactly if no function has a reserved name. -/
theorem exists_keeps_iff [Platform] (f : Facade) (c : Client)
    (valid : Address.ofValue target = .ok a)
    (read : Abi.Interface.read interface = .ok entries) (named : ∀ entry ∈ entries, HasName entry) :
    (∃ g, f.setup c target interface = .ok g ∧ g.Keeps c a entries) ↔
      ∀ name, Exposes entries name → name ∉ reservedNames := by
  constructor
  · rintro ⟨g, built, keeps⟩ name exposes reserved
    obtain ⟨a', entries', valid', read', -, exposed⟩ := setup_eq_ok.mp built
    obtain rfl := Except.ok.inj (valid.symm.trans valid')
    obtain rfl := Except.ok.inj (read.symm.trans read')
    obtain state | isSealed := List.mem_append.mp reserved
    · exact not_keeps_of_exposes exposed state exposes keeps
    · have free := not_sealed_of_mem exposed (mem_viewNames.mpr exposes)
      exact lookup_eq_none_iff_not_mem.mp free isSealed
  · intro free
    have apart (name : String) (mem : name ∈ viewNames entries) : name ∉ reservedNames :=
      free name (mem_viewNames.mp mem)
    have unsealed (name : String) (mem : name ∈ viewNames entries) :
        sealedNames.lookup name = none :=
      lookup_eq_none_iff_not_mem.mpr fun isSealed =>
        apart name mem (List.mem_append_right _ isSealed)
    have intact : tableKey ∉ viewNames entries := fun mem => apart tableKey mem (by decide)
    obtain ⟨g, exposed⟩ := foldlM_expose_isOk unsealed intact
      (get?_set_self _ _ _ : (f.withState c a entries).get? tableKey = _)
    refine ⟨g, setup_eq_ok.mpr ⟨a, entries, valid, read, named, exposed⟩, ?_⟩
    apply keeps_of_exposed exposed
    exact fun key mem exposes => free key exposes (List.mem_append_left _ mem)

end Facade

end EthBatch
