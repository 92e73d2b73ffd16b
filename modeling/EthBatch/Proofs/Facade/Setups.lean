import EthBatch.Proofs.Facade.Answers

/-!
# Setting a facade up more than once

A facade of tasks can be set up again, for another target, interface and client. Its state is then
the one of the last time, table included, and every function of the last interface answers for it.
But the attributes of functions from before are not removed. They are found first, so a function
that the last interface does not have still leads somewhere, with the target and the interface of
the last time. Apart from them the facade is like one that was set up once.
-/

namespace EthBatch

namespace Facade

open Except

/-- What a facade is set up with. -/
structure Setup where
  client : Client
  target : Value
  interface : Value

/-- Sets a facade up several times. -/
def setUpAll [Platform] (f : Facade) (setups : List Setup) : Except Fault Facade :=
  setups.foldlM (fun f s => f.setup s.client s.target s.interface) f

/-- The interface has a function of a name that only reads. -/
def Setup.Exposes [Platform] (s : Setup) (name : String) : Prop :=
  ∃ entries, Abi.Interface.read s.interface = .ok entries ∧ Facade.Exposes entries name

/-- A name without an underscore in front that is not the one of the only method. -/
def IsOrdinary (name : String) : Prop := ['_'].isPrefixOf name.toList = false ∧ name ≠ "setup"

instance (name : String) : Decidable (IsOrdinary name) :=
  inferInstanceAs (Decidable (_ ∧ _))

variable {f g fresh : Facade} {c : Client} {a : Address} {entries : List Value} {name : String}
variable {s last : Setup} {setups earlier : List Setup}

/-! ## Ordinary names -/

theorem IsOrdinary.not_mem (ordinary : IsOrdinary name) {names : List String}
    (marked : ∀ k ∈ names, ['_'].isPrefixOf k.toList = true) : name ∉ names := by
  intro mem
  exact Bool.false_ne_true (ordinary.1.symm.trans (marked name mem))

theorem IsOrdinary.not_mem_reservedNames (ordinary : IsOrdinary name) : name ∉ reservedNames :=
  ordinary.not_mem (by decide)

theorem IsOrdinary.not_mem_stateKeys (ordinary : IsOrdinary name) : name ∉ stateKeys :=
  ordinary.not_mem (by decide)

/-- The only thing of its own that a facade has under an ordinary name is the class of its
functions. -/
theorem ownFault?_of_isOrdinary (client : f.get? clientKey = some (.client c))
    (ordinary : IsOrdinary name) :
    f.ownFault? name = if name = "Function" then some .wrongKind else none := by
  have object : name ∉ objectNames := ordinary.not_mem (by decide)
  have comparison : name ∉ comparisonNames := ordinary.not_mem (by decide)
  have own : name ∈ ownNames c.style ↔ name = "Function" := by
    have helper : name ≠ "_setup_functions" := by
      rintro rfl
      exact absurd ordinary.1 (by decide)
    cases c.style <;> simp [ownNames, helper, ordinary.2]
  rw [ownFault?, client]
  simp [own, object, comparison]

/-- An ordinary name that is no attribute, and no function of the interface, is not found. -/
theorem function_of_none (keeps : f.Keeps c a entries) (ordinary : IsOrdinary name)
    (absent : f.get? name = none) (hidden : ¬ Facade.Exposes entries name) :
    f.function name =
      if name = "Function" then .error (.fault .wrongKind) else .error (.noFunction name) := by
  have unlisted : name ∉ viewNames entries := fun mem => hidden (mem_viewNames.mp mem)
  have lookup : f.lookup name = .error (.noFunction name) := by
    rw [lookup, if_neg (by simp [ordinary.1]), keeps.table]
    simp [List.mem_eraseDups, unlisted]
  rw [function, absent, ownFault?_of_isOrdinary keeps.client ordinary]
  by_cases own : name = "Function"
  · simp [own]
  · simp [own, lookup]

theorem get?_blank (other : name ∉ stateKeys) : blank.get? name = none :=
  lookup_eq_none_iff_not_mem.mpr other

section

variable [Platform]

/-! ## One setup -/

theorem Setup.exposes_iff (read : Abi.Interface.read s.interface = .ok entries) :
    s.Exposes name ↔ Facade.Exposes entries name := by
  constructor
  · rintro ⟨entries', read', exposes⟩
    obtain rfl := Except.ok.inj (read.symm.trans read')
    exact exposes
  · exact fun exposes => ⟨entries, read, exposes⟩

section

variable (built : f.setup s.client s.target s.interface = .ok g)
include built

theorem get?_of_setup_exposes (exposes : s.Exposes name) : g.get? name = some (.function name) := by
  obtain ⟨a, entries, -, read, -, exposed⟩ := setup_eq_ok.mp built
  exact get?_of_exposes exposed ((Setup.exposes_iff read).mp exposes)

theorem get?_of_setup_hides (hidden : ¬ s.Exposes name) (other : name ∉ stateKeys) :
    g.get? name = f.get? name := by
  obtain ⟨a, entries, -, read, -, exposed⟩ := setup_eq_ok.mp built
  exact get?_of_not_exposes exposed (mt (Setup.exposes_iff read).mpr hidden) other

end

/-! ## Several setups -/

theorem setUpAll_concat_eq_ok : f.setUpAll (setups ++ [s]) = .ok g ↔
    ∃ h, f.setUpAll setups = .ok h ∧ h.setup s.client s.target s.interface = .ok g := by
  rw [setUpAll, List.foldlM_append, bind_eq_ok]
  simp [setUpAll]

/-- A function of any of the interfaces is still there in the end. -/
theorem get?_of_setUpAll (done : f.setUpAll setups = .ok g) (other : name ∉ stateKeys)
    (exposed : ∃ s ∈ setups, s.Exposes name) : g.get? name = some (.function name) := by
  induction setups using List.reverseRecOn generalizing g with
  | nil =>
      obtain ⟨s, mem, -⟩ := exposed
      cases mem
  | append_singleton setups s ih =>
      obtain ⟨h, before, built⟩ := setUpAll_concat_eq_ok.mp done
      by_cases here : s.Exposes name
      · exact get?_of_setup_exposes built here
      · rw [get?_of_setup_hides built here other]
        apply ih before
        obtain ⟨t, mem, exposes⟩ := exposed
        obtain earlier | rfl := List.mem_append.mp mem |>.imp_right List.mem_singleton.mp
        · exact ⟨t, earlier, exposes⟩
        · exact absurd exposes here

/-- What no interface has is what it was before. -/
theorem get?_of_setUpAll_hides (done : f.setUpAll setups = .ok g) (other : name ∉ stateKeys)
    (hidden : ∀ s ∈ setups, ¬ s.Exposes name) : g.get? name = f.get? name := by
  induction setups using List.reverseRecOn generalizing g with
  | nil =>
      obtain rfl := Except.ok.inj done
      rfl
  | append_singleton setups s ih =>
      obtain ⟨h, before, built⟩ := setUpAll_concat_eq_ok.mp done
      rw [get?_of_setup_hides built (hidden s (by simp)) other,
        ih before fun t mem => hidden t (List.mem_append_left _ mem)]

/-- Calls depend on the state of a facade and on nothing else. -/
theorem Keeps.call_eq (keeps : f.Keeps c a entries) (keeps' : g.Keeps c a entries) (node : Node)
    (name : String) (params : Value) (options : Fields) :
    f.call node name params options = g.call node name params options := by
  have target : f.targetValue = g.targetValue := by
    rw [targetValue, targetValue, keeps.target, keeps'.target]
  have interface : f.interfaceValue = g.interfaceValue := by
    rw [interfaceValue, interfaceValue, keeps.interface, keeps'.interface]
  rw [Facade.call, Facade.call, Facade.calls, Facade.calls, target, interface, keeps.client,
    keeps'.client]

/-- A function of an earlier interface that the last one does not have. -/
def IsStale (earlier : List Setup) (last : Setup) (name : String) : Prop :=
  ¬ last.Exposes name ∧ ∃ s ∈ earlier, s.Exposes name

/-- A name that the last interface does not have is stale, or no interface has it. -/
theorem isStale_or_hidden (absent : ¬ last.Exposes name) :
    IsStale earlier last name ∨ ∀ s ∈ earlier ++ [last], ¬ s.Exposes name := by
  by_cases before : ∃ s ∈ earlier, s.Exposes name
  · exact .inl ⟨absent, before⟩
  · refine .inr fun s mem exposes => ?_
    obtain mem | rfl := (List.mem_append.mp mem).imp_right List.mem_singleton.mp
    · exact before ⟨s, mem, exposes⟩
    · exact absent exposes

/-- A name leads to a function that answers for a setup, if the interface has it, and to nothing
otherwise. -/
structure Speaks (f : Facade) (s : Setup) (name : String) : Prop where
  answers : ∀ entries, Abi.Interface.read s.interface = .ok entries → s.Exposes name →
    f.Answers s.client s.target entries name
  refuses : ¬ s.Exposes name → f.function name = .error (.noFunction name)

section

variable (done : blank.setUpAll (earlier ++ [last]) = .ok f) (ordinary : IsOrdinary name)
include done ordinary

theorem get?_of_last_exposes (exposes : last.Exposes name) :
    f.get? name = some (.function name) :=
  get?_of_setUpAll done ordinary.not_mem_stateKeys ⟨last, by simp, exposes⟩

/-- A stale attribute is found. -/
theorem function_of_isStale (stale : IsStale earlier last name) : f.function name = .ok name := by
  obtain ⟨-, s, mem, exposes⟩ := stale
  rw [function, get?_of_setUpAll done ordinary.not_mem_stateKeys
    ⟨s, List.mem_append_left _ mem, exposes⟩]

variable (keeps : f.Keeps c a entries) (read : Abi.Interface.read last.interface = .ok entries)
include keeps read

theorem function_of_hidden (hidden : ∀ s ∈ earlier ++ [last], ¬ s.Exposes name) :
    f.function name =
      if name = "Function" then .error (.fault .wrongKind) else .error (.noFunction name) := by
  apply function_of_none keeps ordinary
  · rw [get?_of_setUpAll_hides done ordinary.not_mem_stateKeys hidden,
      get?_blank ordinary.not_mem_stateKeys]
  · exact fun exposes => hidden last (by simp) ((Setup.exposes_iff read).mpr exposes)

/-- A facade and one with the same state that was set up once have the same under a name unless the
name is stale. -/
theorem function_eq_iff (once : blank.setUpAll ([] ++ [last]) = .ok fresh)
    (keeps' : fresh.Keeps c a entries) :
    f.function name = fresh.function name ↔ ¬ IsStale earlier last name := by
  by_cases here : last.Exposes name
  · refine iff_of_true ?_ fun stale => stale.1 here
    rw [function, function, get?_of_last_exposes done ordinary here,
      get?_of_last_exposes once ordinary here]
  · have missing : fresh.function name =
        if name = "Function" then .error (.fault .wrongKind) else .error (.noFunction name) :=
      function_of_hidden once ordinary keeps' read (by simpa using here)
    obtain stale | hidden := @isStale_or_hidden name last earlier _ here
    · refine iff_of_false ?_ (not_not_intro stale)
      rw [function_of_isStale done ordinary stale, missing]
      split <;> simp
    · refine iff_of_true ?_ fun stale => ?_
      · rw [function_of_hidden done ordinary keeps read hidden, missing]
      · obtain ⟨-, s, mem, exposes⟩ := stale
        exact hidden s (List.mem_append_left _ mem) exposes

end

/-- A facade speaks for its last setup under every name that is neither stale nor that of the class
of functions. -/
theorem speaks_iff (done : blank.setUpAll (earlier ++ [last]) = .ok f) (ordinary : IsOrdinary name)
    (keeps : f.Keeps last.client a entries) (valid : Address.ofValue last.target = .ok a)
    (read : Abi.Interface.read last.interface = .ok entries) : f.Speaks last name ↔
      ¬ (IsStale earlier last name ∨ ¬ last.Exposes name ∧ name = "Function") := by
  by_cases here : last.Exposes name
  · refine iff_of_true ⟨?_, fun hidden => absurd here hidden⟩ ?_
    · intro entries' read' _
      obtain rfl := Except.ok.inj (read.symm.trans read')
      exact keeps.answers valid (get?_of_last_exposes done ordinary here)
    · rintro (stale | ⟨hidden, -⟩)
      · exact stale.1 here
      · exact hidden here
  · obtain stale | hidden := @isStale_or_hidden name last earlier _ here
    · refine iff_of_false (fun speaks => ?_) (not_not_intro (.inl stale))
      exact nomatch (function_of_isStale done ordinary stale).symm.trans (speaks.refuses here)
    · have missing := function_of_hidden done ordinary keeps read hidden
      by_cases own : name = "Function"
      · refine iff_of_false (fun speaks => ?_) (not_not_intro (.inr ⟨here, own⟩))
        rw [if_pos own] at missing
        exact nomatch missing.symm.trans (speaks.refuses here)
      · rw [if_neg own] at missing
        refine iff_of_true ⟨fun _ _ exposes => absurd exposes here, fun _ => missing⟩ ?_
        rintro (⟨-, s, mem, exposes⟩ | ⟨-, same⟩)
        · exact hidden s (List.mem_append_left _ mem) exposes
        · exact own same

/-- After several setups, and after the last one alone, a facade has the state of the last one. -/
theorem exists_fresh (done : blank.setUpAll (earlier ++ [last]) = .ok f)
    (ordinary : ∀ name, last.Exposes name → IsOrdinary name) : ∃ fresh a entries,
    blank.setup last.client last.target last.interface = .ok fresh ∧
    Address.ofValue last.target = .ok a ∧ Abi.Interface.read last.interface = .ok entries ∧
    f.Keeps last.client a entries ∧ fresh.Keeps last.client a entries := by
  obtain ⟨h, -, built⟩ := setUpAll_concat_eq_ok.mp done
  obtain ⟨a, entries, valid, read, named, exposed⟩ := setup_eq_ok.mp built
  have free (name : String) (exposes : Facade.Exposes entries name) : name ∉ reservedNames :=
    (ordinary name ((Setup.exposes_iff read).mpr exposes)).not_mem_reservedNames
  obtain ⟨fresh, setUp, keeps⟩ := (exists_keeps_iff blank last.client valid read named).mpr free
  refine ⟨fresh, a, entries, setUp, valid, read, ?_, keeps⟩
  apply keeps_of_exposed exposed
  exact fun key mem exposes => free key exposes (List.mem_append_left _ mem)

/-- After any number of setups a facade has the state of one that was set up once, with what was
given last, and calls functions as that one does. The same name leads to the same in both unless it
is that of a function from before. Every function of the last interface answers for the last setup,
and every other name is refused, unless it is that of a function from before or the name of the
class of functions. -/
theorem set_up_as_fresh_unless_stale (done : blank.setUpAll (earlier ++ [last]) = .ok f)
    (ordinary : ∀ s ∈ earlier ++ [last], ∀ name, s.Exposes name → IsOrdinary name) :
    ∃ fresh a entries, blank.setup last.client last.target last.interface = .ok fresh ∧
      Address.ofValue last.target = .ok a ∧ Abi.Interface.read last.interface = .ok entries ∧
      f.Keeps last.client a entries ∧ fresh.Keeps last.client a entries ∧
      (∀ node name params options,
        f.call node name params options = fresh.call node name params options) ∧
      ∀ name, IsOrdinary name →
        (f.function name = fresh.function name ↔ ¬ IsStale earlier last name) ∧
        (f.Speaks last name ↔
          ¬ (IsStale earlier last name ∨ ¬ last.Exposes name ∧ name = "Function")) ∧
        (IsStale earlier last name → f.function name = .ok name) := by
  obtain ⟨fresh, a, entries, setUp, valid, read, keeps, keeps'⟩ :=
    exists_fresh done (ordinary last (by simp))
  refine ⟨fresh, a, entries, setUp, valid, read, keeps, keeps', keeps.call_eq keeps', ?_⟩
  have once : blank.setUpAll ([] ++ [last]) = .ok fresh :=
    setUpAll_concat_eq_ok.mpr ⟨blank, rfl, setUp⟩
  intro name plain
  exact ⟨function_eq_iff done plain keeps read once keeps',
    speaks_iff done plain keeps valid read, function_of_isStale done plain⟩

end

open scoped Platform.Lenient

/-- A setup of a client of tasks, with functions of given names. -/
def ofNames (names : List String) : Setup :=
  ⟨{ Client.terse with style := .tasks }, Call.someTarget, .list (names.map reader)⟩

theorem exposes_ofNames {names : List String} : (ofNames names).Exposes name ↔ name ∈ names :=
  (Setup.exposes_iff (s := ofNames names) rfl).trans exposes_readers

theorem isOrdinary_of_ofNames {names : List String} (plain : ∀ k ∈ names, IsOrdinary k)
    (exposes : (ofNames names).Exposes name) : IsOrdinary name :=
  plain name (exposes_ofNames.mp exposes)

theorem exists_setup_ofNames (f : Facade) {names : List String}
    (free : ∀ k ∈ names, k ∉ reservedNames) : ∃ g, f.setup (ofNames names).client
      (ofNames names).target (ofNames names).interface = .ok g := by
  have read : Abi.Interface.read (ofNames names).interface = .ok (names.map reader) := rfl
  have keeps := (exists_keeps_iff f (ofNames names).client ofValue_someTarget read
    hasName_of_mem_readers).mpr fun k exposes => free k (exposes_readers.mp exposes)
  exact keeps.imp fun g h => h.1

/-- A facade that was set up with two functions, and then with one of them and another. -/
theorem exists_setUpAll_ofNames :
    ∃ f, blank.setUpAll ([ofNames ["owner", "old"]] ++ [ofNames ["owner", "new"]]) = .ok f := by
  obtain ⟨h, first⟩ := @exists_setup_ofNames blank ["owner", "old"] (by decide)
  obtain ⟨f, second⟩ := @exists_setup_ofNames h ["owner", "new"] (by decide)
  have before : blank.setUpAll ([] ++ [ofNames ["owner", "old"]]) = .ok h :=
    setUpAll_concat_eq_ok.mpr ⟨blank, rfl, first⟩
  exact ⟨f, setUpAll_concat_eq_ok.mpr ⟨h, before, second⟩⟩

/-- A function that both interfaces have answers for the last one, and one that neither has is
refused. -/
theorem set_up_as_fresh_unless_stale_names :
    ∃ f, blank.setUpAll ([ofNames ["owner", "old"]] ++ [ofNames ["owner", "new"]]) = .ok f ∧
      f.Answers { Client.terse with style := .tasks } Call.someTarget
        (["owner", "new"].map reader) "owner" ∧
      f.function "absent" = .error (.noFunction "absent") := by
  obtain ⟨f, done⟩ := exists_setUpAll_ofNames
  have ordinary : ∀ s ∈ [ofNames ["owner", "old"]] ++ [ofNames ["owner", "new"]],
      ∀ name, s.Exposes name → IsOrdinary name := by
    intro s mem name exposes
    obtain rfl | rfl : s = ofNames ["owner", "old"] ∨ s = ofNames ["owner", "new"] := by
      simpa using mem
    · exact isOrdinary_of_ofNames (by decide) exposes
    · exact isOrdinary_of_ofNames (by decide) exposes
  obtain ⟨_, _, _, -, -, -, -, -, -, names⟩ := set_up_as_fresh_unless_stale done ordinary
  have owner : (ofNames ["owner", "new"]).Exposes "owner" := exposes_ofNames.mpr (by decide)
  have absent : ¬ (ofNames ["owner", "new"]).Exposes "absent" := by
    rw [exposes_ofNames]
    decide
  refine ⟨f, done, ?_, ?_⟩
  · obtain ⟨-, speaks, -⟩ := names "owner" (by decide)
    refine (speaks.mpr ?_).answers _ rfl owner
    rintro (stale | ⟨hidden, -⟩)
    · exact stale.1 owner
    · exact hidden owner
  · obtain ⟨-, speaks, -⟩ := names "absent" (by decide)
    refine (speaks.mpr ?_).refuses absent
    rintro (⟨-, s, mem, exposes⟩ | ⟨-, same⟩)
    · obtain rfl := List.mem_singleton.mp mem
      exact absurd (exposes_ofNames.mp exposes) (by decide)
    · exact absurd same (by decide)

/-- A function of the first interface is still found after a setup without it, although it is not
found if there was no setup before. The class of functions is found as well. -/
theorem exists_stale_function : ∃ f fresh,
    blank.setUpAll ([ofNames ["owner", "old"]] ++ [ofNames ["owner", "new"]]) = .ok f ∧
    blank.setUpAll ([] ++ [ofNames ["owner", "new"]]) = .ok fresh ∧
    ¬ (ofNames ["owner", "new"]).Exposes "old" ∧ f.function "old" = .ok "old" ∧
    fresh.function "old" = .error (.noFunction "old") ∧
    fresh.function "Function" = .error (.fault .wrongKind) := by
  obtain ⟨f, done⟩ := exists_setUpAll_ofNames
  obtain ⟨fresh, setUp⟩ := @exists_setup_ofNames blank ["owner", "new"] (by decide)
  have once : blank.setUpAll ([] ++ [ofNames ["owner", "new"]]) = .ok fresh :=
    setUpAll_concat_eq_ok.mpr ⟨blank, rfl, setUp⟩
  obtain ⟨_, a, entries, -, -, read, keeps, -⟩ := exists_fresh once fun _ exposes =>
    isOrdinary_of_ofNames (by decide) exposes
  have missing {name : String} (ordinary : IsOrdinary name) (absent : name ∉ ["owner", "new"]) :
      fresh.function name =
        if name = "Function" then .error (.fault .wrongKind) else .error (.noFunction name) :=
    function_of_hidden once ordinary keeps read (by simpa [exposes_ofNames] using absent)
  have absent : ¬ (ofNames ["owner", "new"]).Exposes "old" := by
    rw [exposes_ofNames]
    decide
  have stale : IsStale [ofNames ["owner", "old"]] (ofNames ["owner", "new"]) "old" :=
    ⟨absent, _, List.mem_singleton_self _, exposes_ofNames.mpr (by decide)⟩
  exact ⟨f, fresh, done, once, absent, function_of_isStale done (by decide) stale,
    missing (by decide) (by decide), missing (by decide) (by decide)⟩

end Facade

end EthBatch
