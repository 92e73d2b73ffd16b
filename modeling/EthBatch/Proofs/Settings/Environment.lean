import EthBatch.Proofs.Settings
import EthBatch.Proofs.Settings.Whole

/-!
# Settings from the environment

A text in a variable should make the same settings as the same text given for the setting. It does
for most texts. A switch is turned on by everything but one word. Numbers are read by two readers,
each of which knows ways to write a number that the other one does not. Where a setting may be
absent, the empty text leaves it unset.
-/

namespace EthBatch

open Number

namespace Settings

namespace Field

variable {cs : List Char} {x : Float}

/-- What is given as a decimal fraction has ASCII characters only. -/
theorem small_of_floatOfChars (trimmed : Text.IsTrimmed cs) (h : floatOfChars cs = .ok x) :
    ∀ c ∈ cs, c.toNat < 128 := by
  rw [floatOfChars, trimmed.trimBy_isSpace] at h
  split at h
  · next read => exact fun c mem => (isPlain_of_numeral? read c mem).1
  · split at h
    · next read =>
      obtain ⟨ds, without, read⟩ := Option.bind_eq_some_iff.mp read
      obtain ⟨rfl, _⟩ := withoutUnderscores?_eq_some without
      intro c mem
      by_cases mark : c = '_'
      · rw [mark]
        decide
      · exact (isPlain_of_numeral? read c (mem_ungrouped.mpr ⟨mem, mark⟩)).1
    · cases h

/-- Digits in groups are given without their underscores. -/
theorem floatOfChars_of_grouped (trimmed : Text.IsTrimmed cs) (grouped : Grouped isAsciiDigit cs) :
    floatOfChars cs = .ok x ↔ (numeral? (ungrouped cs)).map nearest = some x := by
  rw [floatOfChars, trimmed.trimBy_isSpace, withoutUnderscores?_of_grouped grouped]
  by_cases mark : '_' ∈ cs
  · have unread : numeral? cs = none := by
      rw [Option.eq_none_iff_forall_ne_some]
      exact fun d read => (isPlain_of_numeral? read '_' mark).2 rfl
    rw [unread, if_pos mark, Option.bind_some]
    cases numeral? (ungrouped cs) <;> simp
  · rw [if_neg mark, ungrouped_eq_self mark]
    cases numeral? cs <;> simp

/-- A decimal fraction that is given is the same one in the environment if and only if its digits
are grouped. -/
theorem real?_of_floatOfChars (trimmed : Text.IsTrimmed cs) (h : floatOfChars cs = .ok x) :
    real? cs = some x ↔ Grouped isAsciiDigit cs := by
  rw [real?_of_ascii trimmed (small_of_floatOfChars trimmed h)]
  refine ⟨And.left, fun grouped => ⟨grouped, ?_⟩⟩
  exact (floatOfChars_of_grouped trimmed grouped).mp h

/-- A decimal fraction from the environment is the same one if it is given, unless it has digits of
another script. -/
theorem floatOfChars_of_real? (trimmed : Text.IsTrimmed cs) (h : real? cs = some x) :
    floatOfChars cs = .ok x ↔ ∀ c ∈ cs, c.toNat < 128 := by
  refine ⟨small_of_floatOfChars trimmed, fun ascii => ?_⟩
  obtain ⟨grouped, read⟩ := (real?_of_ascii trimmed ascii).mp h
  exact (floatOfChars_of_grouped trimmed grouped).mpr read

theorem optional_text {α : Type} (read : Value → Except Problem α) (s : String) :
    optional read (.text s) = (read (.text s)).map some := rfl

theorem float_text (s : String) : float (.text s) = floatOfChars s.toList := by
  simp only [float, text?, Except.ok_bind]

theorem seconds_text (s : String) :
    seconds (.text s) = (floatOfChars s.toList >>= positive) := by
  rw [seconds, float_text]

/-- The text in small letters. -/
def lowered (s : String) : String := String.ofList (s.toList.map Char.toLower)

theorem boolOfText_eq_false {s : String} :
    boolOfText s = .ok false ↔ lowered s ∈ falseWords := by
  rw [boolOfText, lowered]
  split
  · simp [*]
  · split <;> simp [*]

theorem boolOfText_eq_true {s : String} : boolOfText s = .ok true ↔ lowered s ∈ trueWords := by
  have disjoint : lowered s ∈ trueWords → lowered s ∉ falseWords := by
    have all : trueWords.all (fun w => !falseWords.contains w) = true := by decide
    intro mem
    simpa using List.all_eq_true.mp all _ mem
  rw [boolOfText]
  change (if lowered s ∈ falseWords then _ else if lowered s ∈ trueWords then _ else _) = _ ↔ _
  split
  · next off => exact iff_of_false nofun fun on => disjoint on off
  · split <;> simp [*]

theorem eq_of_positive {y : Float} (h : positive x = .ok y) : x = y := by
  rw [positive] at h
  split at h
  · cases h
  · exact Except.ok.inj h

end Field

namespace Setting

/-- The text makes the same settings in the variable of a setting as if it is given for the setting,
or it makes none in both cases. -/
def Agrees (x : Setting) (s : String) : Prop :=
  ∀ env, (make ((x.envName, s) :: env) []).toOption =
    (make env [(x.spec.name, .text s)]).toOption

/-- The settings that nothing is said about. -/
def defaults : Settings := ⟨1024, 4, false, none, none, none, none⟩

variable {x y : Setting} {s : String} {env : Environment} {st : Settings} {given : Fields}

theorem source_variable (x : Setting) (s : String) (env : Environment) :
    x.spec.source ((x.envName, s) :: env) [] = x.spec.fallback [(x.envName, s)] :=
  x.fallback_congr (by simp [Environment.get?])

theorem source_variable_of_ne (h : y ≠ x) :
    y.spec.source ((x.envName, s) :: env) [] = y.spec.source env [] := by
  apply y.fallback_congr
  have other : (y.envName == x.envName) = false := by simpa using envName_ne h
  simp [Environment.get?, List.lookup_cons, other]

theorem source_given {v : Value} : x.spec.source env [(x.spec.name, v)] = .ok v := by
  simp [Spec.source, Fields.get?]

theorem source_given_of_ne {v : Value} (h : y ≠ x) :
    y.spec.source env [(x.spec.name, v)] = y.spec.source env [] := by
  have other : (y.spec.name == x.spec.name) = false := by simpa using name_ne h
  simp [Spec.source, Fields.get?, List.lookup_cons, other]

/-- The other settings are made from another environment if they have the same sources there. -/
theorem make_eq_ok_iff {env' : Environment}
    (others : ∀ y, y ≠ x → y.spec.source env given = y.spec.source env' []) :
    make env given = .ok st ↔ x.spec.Gives env given (x.value st) ∧
      ∀ y, y ≠ x → y.spec.Gives env' [] (y.value st) := by
  have same (y : Setting) (other : y ≠ x) :
      y.spec.Gives env given (y.value st) ↔ y.spec.Gives env' [] (y.value st) := by
    rw [Spec.Gives, others y other, Spec.Gives]
  rw [make_eq_ok]
  constructor
  · intro gives
    exact ⟨gives x, fun y other => (same y other).mp (gives y)⟩
  · rintro ⟨here, gives⟩ y
    by_cases other : y = x
    · exact other ▸ here
    · exact (same y other).mpr (gives y other)

theorem make_variable_eq_ok : make ((x.envName, s) :: env) [] = .ok st ↔
    (∃ v, x.spec.fallback [(x.envName, s)] = .ok v ∧ x.spec.read v = .ok (x.value st)) ∧
      ∀ y, y ≠ x → y.spec.Gives env [] (y.value st) := by
  rw [make_eq_ok_iff fun y => source_variable_of_ne, Spec.Gives, source_variable]

theorem make_given_eq_ok {v : Value} : make env [(x.spec.name, v)] = .ok st ↔
    x.spec.read v = .ok (x.value st) ∧ ∀ y, y ≠ x → y.spec.Gives env [] (y.value st) := by
  rw [make_eq_ok_iff fun y => source_given_of_ne, Spec.Gives, source_given]
  simp

/-- It is enough to compare the setting itself. -/
theorem agrees_iff : x.Agrees s ↔ ∀ a : x.Holds,
    (∃ v, x.spec.fallback [(x.envName, s)] = .ok v ∧ x.spec.read v = .ok a) ↔
      x.spec.read (.text s) = .ok a := by
  constructor
  · intro agrees a
    -- With the defaults for all other settings the setting itself decides.
    have others : ∀ y, y ≠ x → y.spec.Gives [] [] (y.value (x.put defaults a)) := by
      intro y other
      rw [value_put_of_ne defaults a other]
      exact make_eq_ok.mp rfl y
    have fromVariable := @make_variable_eq_ok x s [] (x.put defaults a)
    have fromText := @make_given_eq_ok x [] (x.put defaults a) (.text s)
    rw [value_put_self, and_iff_left others] at fromVariable fromText
    rw [← fromVariable, ← fromText, ← Except.toOption_eq_some, agrees [], Except.toOption_eq_some]
  · intro same env
    ext st
    rw [Except.toOption_eq_some, Except.toOption_eq_some, make_variable_eq_ok, make_given_eq_ok,
      same]

/-! ## What a text in a variable gives -/

theorem get?_singleton (name s : String) : Environment.get? [(name, s)] name = some s := by
  simp [Environment.get?]

theorem gives_int {name : String} {otherwise i : Int} :
    (∃ v, Environment.int [(name, s)] name otherwise = .ok v ∧ Field.int v = .ok i) ↔
      whole? s.toList = some i := by
  have read (n : Int) : Field.int (.int n) = .ok n := rfl
  rw [Environment.int, get?_singleton]
  dsimp only
  cases whole? s.toList <;> simp [read]

theorem gives_switch {name : String} {b : Bool} :
    (∃ v, Environment.switch [(name, s)] name = .ok v ∧ Field.bool v = .ok b) ↔
      decide (Field.lowered s ≠ "false") = b := by
  have read (b : Bool) : Field.bool (.bool b) = .ok b := rfl
  rw [Environment.switch, get?_singleton, Field.lowered]
  simp only [Except.ok.injEq, exists_eq_left', read]

theorem trimmed?_singleton (trimmed : Text.IsTrimmed s.toList) (name : String) :
    Environment.trimmed? [(name, s)] name = if s = "" then none else some s.toList := by
  rw [Environment.trimmed?, get?_singleton, Option.getD_some, trimmed.trim]
  by_cases empty : s = ""
  · rw [empty]
    rfl
  · rw [if_neg empty, if_neg (by simpa using empty)]

theorem gives_text {α : Type} {read : Value → Except Problem α} {a : α} {name : String}
    (trimmed : Text.IsTrimmed s.toList) (some : s ≠ "") :
    (∃ v, Environment.text [(name, s)] name = .ok v ∧ read v = .ok a) ↔
      read (.text s) = .ok a := by
  rw [Environment.text, trimmed?_singleton trimmed, if_neg some]
  simp

theorem gives_float {a : Option Float} {name : String} (trimmed : Text.IsTrimmed s.toList)
    (some : s ≠ "") : (∃ v, Environment.float [(name, s)] name = .ok v ∧
      Field.optional Field.seconds v = .ok a) ↔
        ∃ x, real? s.toList = .some x ∧ Field.positive x = .ok x ∧ .some x = a := by
  have read (x : Float) : Field.optional Field.seconds (.float x) = .ok a ↔
      Field.positive x = .ok x ∧ .some x = a := by
    change (Field.positive x).map .some = .ok a ↔ _
    rw [Except.map_eq_ok]
    constructor
    · rintro ⟨y, positive, rfl⟩
      obtain rfl := Field.eq_of_positive positive
      exact ⟨positive, rfl⟩
    · exact fun ⟨positive, same⟩ => ⟨x, positive, same⟩
  rw [Environment.float, trimmed?_singleton trimmed, if_neg some]
  dsimp only
  cases real? s.toList <;> simp [read]

/-! ## Where the two ways differ -/

/-- The settings that may be absent. -/
def optionals : List Setting := [.address, .aggregatorCode, .wrapperCode, .timeout]

/-- The empty text is no text for a setting that may be absent. -/
def CountsAsUnset (x : Setting) (s : String) : Prop := x ∈ optionals ∧ s = ""

/-- A text is read as a whole number in one way, and is not written as the other way wants it. -/
def NumbersDiverge (cs : List Char) : Prop :=
  (∃ i, Field.intOfChars cs = .ok i) ∧ ¬ Field.SuitsVariable cs ∨
    (∃ i, whole? cs = some i) ∧ ¬ Field.SuitsSetting cs

/-- A text is read as a duration in one way, and its digits are not grouped, or not all ASCII. -/
def DurationsDiverge (cs : List Char) : Prop :=
  (∃ x, Field.floatOfChars cs = .ok x ∧ Field.positive x = .ok x) ∧ ¬ Grouped isAsciiDigit cs ∨
    (∃ x, real? cs = some x ∧ Field.positive x = .ok x) ∧ ¬ ∀ c ∈ cs, c.toNat < 128

/-- A word other than the one that turns a switch off is none of those that turn it on. -/
def SwitchesDiverge (s : String) : Prop :=
  Field.lowered s ≠ "false" ∧ Field.lowered s ∉ Field.trueWords

/-- The text has another meaning in the variable of a setting than if it is given, or a meaning in
one of the two ways only. -/
def Diverges : Setting → String → Prop
  | .batchSize, s => NumbersDiverge s.toList
  | .maxConcurrentChunks, s => NumbersDiverge s.toList
  | .deployless, s => SwitchesDiverge s
  | .address, _ => False
  | .aggregatorCode, _ => False
  | .wrapperCode, _ => False
  | .timeout, s => DurationsDiverge s.toList

theorem not_countsAsUnset (h : x ∉ optionals) : ¬ x.CountsAsUnset s := fun unset => h unset.1

theorem countsAsUnset_iff (h : x ∈ optionals) : x.CountsAsUnset s ↔ s = "" := and_iff_right h

/-- No text is read as nothing. -/
theorem optional_text_ne_none {α : Type} (read : Value → Except Problem α) (s : String) :
    Field.optional read (.text s) ≠ .ok none := by
  intro absent
  obtain ⟨a, _, none⟩ := Except.map_eq_ok.mp absent
  cases none

theorem numbers_agree (name : String) (otherwise : Int) (trimmed : Text.IsTrimmed s.toList) :
    (∀ i, (∃ v, Environment.int [(name, s)] name otherwise = .ok v ∧ Field.int v = .ok i) ↔
      Field.int (.text s) = .ok i) ↔ ¬ NumbersDiverge s.toList := by
  simp only [gives_int]
  rw [NumbersDiverge, not_or, not_and_not_right, not_and_not_right]
  exact Field.whole?_iff_intOfChars trimmed

theorem switches_agree (name s : String) :
    (∀ b, (∃ v, Environment.switch [(name, s)] name = .ok v ∧ Field.bool v = .ok b) ↔
      Field.bool (.text s) = .ok b) ↔ ¬ SwitchesDiverge s := by
  have given : Field.bool (.text s) = Field.boolOfText s := rfl
  simp only [gives_switch, given]
  rw [SwitchesDiverge]
  by_cases off : Field.lowered s = "false"
  · have read : Field.boolOfText s = .ok false := Field.boolOfText_eq_false.mpr (off ▸ by decide)
    simp [off, read]
  · -- The switch is on in the variable, and may be off or nothing at all if it is given.
    rw [decide_eq_true off, not_and_not_right, ← Field.boolOfText_eq_true]
    constructor
    · exact fun same _ => (same true).mp rfl
    · intro on b
      rw [on off]
      simp

/-- A text is given, or stands in a variable, for a setting that takes texts. -/
theorem texts_agree {α : Type} {read : Value → Except Problem α} (name : String)
    (trimmed : Text.IsTrimmed s.toList) :
    (∀ a, (∃ v, Environment.text [(name, s)] name = .ok v ∧ Field.optional read v = .ok a) ↔
      Field.optional read (.text s) = .ok a) ↔ s ≠ "" := by
  constructor
  · rintro same rfl
    refine optional_text_ne_none read "" ((same none).mp ⟨.null, ?_, rfl⟩)
    rw [Environment.text, trimmed?_singleton trimmed, if_pos rfl]
  · exact fun some a => gives_text trimmed some

theorem durations_agree (trimmed : Text.IsTrimmed s.toList) :
    (∀ x, real? s.toList = some x ∧ Field.positive x = .ok x ↔
      Field.floatOfChars s.toList = .ok x ∧ Field.positive x = .ok x) ↔
      ¬ DurationsDiverge s.toList := by
  rw [DurationsDiverge, not_or, not_and_not_right, not_and_not_right]
  constructor
  · intro same
    constructor
    · rintro ⟨x, given, positive⟩
      obtain ⟨read, _⟩ := (same x).mpr ⟨given, positive⟩
      exact (Field.real?_of_floatOfChars trimmed given).mp read
    · rintro ⟨x, read, positive⟩
      obtain ⟨given, _⟩ := (same x).mp ⟨read, positive⟩
      exact (Field.floatOfChars_of_real? trimmed read).mp given
  · rintro ⟨grouped, ascii⟩ x
    constructor
    · rintro ⟨read, positive⟩
      have small := ascii ⟨x, read, positive⟩
      exact ⟨(Field.floatOfChars_of_real? trimmed read).mpr small, positive⟩
    · rintro ⟨given, positive⟩
      have inGroups := grouped ⟨x, given, positive⟩
      exact ⟨(Field.real?_of_floatOfChars trimmed given).mpr inGroups, positive⟩

theorem timeouts_agree (name : String) (trimmed : Text.IsTrimmed s.toList) :
    (∀ a, (∃ v, Environment.float [(name, s)] name = .ok v ∧
        Field.optional Field.seconds v = .ok a) ↔
      Field.optional Field.seconds (.text s) = .ok a) ↔
      ¬ DurationsDiverge s.toList ∧ s ≠ "" := by
  by_cases some : s = ""
  · subst some
    refine iff_of_false (fun same => ?_) fun h => h.2 rfl
    refine optional_text_ne_none Field.seconds "" ((same none).mp ⟨.null, ?_, rfl⟩)
    rw [Environment.float, trimmed?_singleton trimmed, if_pos rfl]
  · rw [and_iff_left some, ← durations_agree trimmed]
    have given (a : Option Float) : Field.optional Field.seconds (.text s) = .ok a ↔
        ∃ x, (Field.floatOfChars s.toList = .ok x ∧ Field.positive x = .ok x) ∧ .some x = a := by
      rw [Field.optional_text, Field.seconds_text, Except.map_eq_ok]
      constructor
      · rintro ⟨y, admitted, rfl⟩
        obtain ⟨x, read, positive⟩ := Except.bind_eq_ok.mp admitted
        obtain rfl := Field.eq_of_positive positive
        exact ⟨x, ⟨read, positive⟩, rfl⟩
      · rintro ⟨x, ⟨read, positive⟩, rfl⟩
        exact ⟨x, Except.bind_eq_ok.mpr ⟨x, read, positive⟩, rfl⟩
    simp only [gives_float trimmed some, given]
    constructor
    · intro same x
      simpa [← and_assoc] using same (.some x)
    · intro same a
      simp only [← and_assoc, same]

/-- The empty text leaves a setting that may be absent as it is without its variable. -/
theorem make_of_countsAsUnset (unset : x.CountsAsUnset s)
    (absent : Environment.get? env x.envName = none) :
    make ((x.envName, s) :: env) [] = make env [] := by
  obtain ⟨mayBeAbsent, rfl⟩ := unset
  have blank : Environment.trimmed? [(x.envName, "")] x.envName =
      Environment.trimmed? env x.envName := by
    rw [Environment.trimmed?, Environment.trimmed?, get?_singleton, absent]
    rfl
  apply make_congr
  intro y
  by_cases other : y = x
  · subst other
    rw [source_variable]
    cases y with
    | batchSize | maxConcurrentChunks | deployless => exact absurd mayBeAbsent (by decide)
    | address => exact Environment.text_congr blank
    | aggregatorCode => exact Environment.text_congr blank
    | wrapperCode => exact Environment.text_congr blank
    | timeout => exact Environment.float_congr blank
  · exact source_variable_of_ne other

/-- A text has the same effect in the variable of a setting as if it is given if and only if its two
readers do not differ about it and it is not the empty text for a setting that may be absent. Such a
setting is left unset then. -/
theorem environment_agrees_unless_diverging (x : Setting) (s : String)
    (trimmed : Text.IsTrimmed s.toList) :
    (x.Agrees s ↔ ¬ x.Diverges s ∧ ¬ x.CountsAsUnset s) ∧
    (x.CountsAsUnset s → ∀ env, Environment.get? env x.envName = none →
      make ((x.envName, s) :: env) [] = make env []) := by
  refine ⟨agrees_iff.trans ?_, fun unset env => make_of_countsAsUnset unset⟩
  cases x with
  | batchSize =>
      rw [and_iff_left (not_countsAsUnset (by decide))]
      dsimp only [spec, envName, batchSizeSpec, Holds]
      exact numbers_agree "MULTICALL_BATCH_SIZE" 1024 trimmed
  | maxConcurrentChunks =>
      rw [and_iff_left (not_countsAsUnset (by decide))]
      dsimp only [spec, envName, maxConcurrentChunksSpec, Holds]
      exact numbers_agree "MULTICALL_MAX_CONCURRENT_CHUNKS" 4 trimmed
  | deployless =>
      rw [and_iff_left (not_countsAsUnset (by decide))]
      dsimp only [spec, envName, deploylessSpec, Holds]
      exact switches_agree "MULTICALL_DEPLOYLESS" s
  | address =>
      rw [countsAsUnset_iff (by decide), Diverges, not_false_iff, true_and]
      dsimp only [spec, envName, addressSpec, Holds]
      exact texts_agree "MULTICALL_ADDRESS" trimmed
  | aggregatorCode =>
      rw [countsAsUnset_iff (by decide), Diverges, not_false_iff, true_and]
      dsimp only [spec, envName, aggregatorCodeSpec, Holds]
      exact texts_agree "MULTICALL_BYTECODE" trimmed
  | wrapperCode =>
      rw [countsAsUnset_iff (by decide), Diverges, not_false_iff, true_and]
      dsimp only [spec, envName, wrapperCodeSpec, Holds]
      exact texts_agree "DEPLOYLESS_CALL_BYTECODE" trimmed
  | timeout =>
      rw [countsAsUnset_iff (by decide)]
      dsimp only [spec, envName, timeoutSpec, Holds]
      exact timeouts_agree "MULTICALL_TIMEOUT" trimmed

/-- A word for the truth value of a switch that is off turns the switch on in its variable. -/
theorem exists_word_turning_on : ∃ s st st', Text.IsTrimmed s.toList ∧
    make [] [(Setting.deployless.spec.name, .text s)] = .ok st ∧ st.deployless = false ∧
    make [(Setting.deployless.envName, s)] [] = .ok st' ∧ st'.deployless = true := by
  refine ⟨"no", defaults, { defaults with deployless := true }, ⟨?_, ?_⟩, rfl, rfl, rfl, rfl⟩
  · rintro c ⟨⟩
    rfl
  · rintro c ⟨⟩
    rfl

/-- Digits in groups make the same settings. A blank duration makes those without one. -/
theorem environment_agrees_unless_diverging_grouped :
    Setting.batchSize.Agrees "1_024" ∧
    make [("MULTICALL_TIMEOUT", "")] [] = make [] [] := by
  have digits : "1_024".toList = ['1', '_', '0', '2', '4'] := rfl
  have trimmed : Text.IsTrimmed "1_024".toList := by
    constructor
    · rintro c ⟨⟩
      rfl
    · rintro c ⟨⟩
      rfl
  have read : ungroup isAsciiDigit "1_024".toList = some ['1', '0', '2', '4'] := rfl
  have grouped := ((ungroup_eq_some_iff (by decide)).mp read).1
  have agree : ¬ Setting.batchSize.Diverges "1_024" := by
    rintro (⟨_, unusual⟩ | ⟨_, odd⟩)
    · refine unusual ⟨?_, grouped, ?_⟩
      · rw [digits]
        decide
      · rw [digits]
        decide
    · refine odd ⟨?_, nofun⟩
      rw [digits]
      simp
  have used : ¬ Setting.batchSize.CountsAsUnset "1_024" := not_countsAsUnset (by decide)
  have blank : Text.IsTrimmed "".toList := ⟨nofun, nofun⟩
  have unset : Setting.timeout.CountsAsUnset "" := ⟨by decide, rfl⟩
  obtain ⟨agrees, -⟩ := environment_agrees_unless_diverging .batchSize "1_024" trimmed
  obtain ⟨-, same⟩ := environment_agrees_unless_diverging .timeout "" blank
  exact ⟨agrees.mpr ⟨agree, used⟩, same unset [] rfl⟩

end Setting

end Settings

end EthBatch
