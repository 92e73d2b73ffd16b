import EthBatch.Proofs.Except
import EthBatch.Settings
import Mathlib

/-!
# How settings are made

Each setting is made on its own: from the value that is given for it, or from what its variable
holds. Settings are made if and only if each of the seven is, and no setting depends on what is
given for another one.
-/

namespace EthBatch

namespace Environment

variable {env env' : Environment} {name : String}

theorem int_congr (h : env.get? name = env'.get? name) (otherwise : Int) :
    env.int name otherwise = env'.int name otherwise := by
  rw [int, h, int]

theorem switch_congr (h : env.get? name = env'.get? name) : env.switch name = env'.switch name := by
  rw [switch, h, switch]

theorem trimmed?_congr (h : env.get? name = env'.get? name) :
    env.trimmed? name = env'.trimmed? name := by
  rw [trimmed?, h, trimmed?]

theorem text_congr (h : env.trimmed? name = env'.trimmed? name) :
    env.text name = env'.text name := by
  rw [text, h, text]

theorem float_congr (h : env.trimmed? name = env'.trimmed? name) :
    env.float name = env'.float name := by
  rw [float, h, float]

end Environment

namespace Settings

namespace Spec

variable {α : Type} {s : Spec α} {env : Environment} {given : Fields} {a : α}

/-- The source of a setting can be read, and has a value. -/
def Gives (s : Spec α) (env : Environment) (given : Fields) (a : α) : Prop :=
  ∃ v, s.source env given = .ok v ∧ s.read v = .ok a

theorem get_eq_ok : s.get env given = .ok (.ok a) ↔ s.Gives env given a := by
  constructor
  · intro h
    obtain ⟨v, found, h⟩ := Except.map_eq_ok.mp h
    exact ⟨v, found, Except.mapError_eq_ok.mp h⟩
  · rintro ⟨v, found, read⟩
    exact Except.map_eq_ok.mpr ⟨v, found, Except.mapError_eq_ok.mpr read⟩

/-- A setting has one value. -/
theorem Gives.unique {a' : α} (h : s.Gives env given a) (h' : s.Gives env given a') : a = a' := by
  have same := (get_eq_ok.mpr h).symm.trans (get_eq_ok.mpr h')
  exact Except.ok.inj (Except.ok.inj same)

end Spec

/-- One of the seven settings. -/
inductive Setting where
  | batchSize
  | maxConcurrentChunks
  | deployless
  | address
  | aggregatorCode
  | wrapperCode
  | timeout
  deriving DecidableEq, Repr

namespace Setting

/-- What the setting is of. -/
abbrev Holds : Setting → Type
  | .batchSize => Int
  | .maxConcurrentChunks => Int
  | .deployless => Bool
  | .address => Option Address
  | .aggregatorCode => Option String
  | .wrapperCode => Option String
  | .timeout => Option Float

def spec : (x : Setting) → Spec x.Holds
  | .batchSize => batchSizeSpec
  | .maxConcurrentChunks => maxConcurrentChunksSpec
  | .deployless => deploylessSpec
  | .address => addressSpec
  | .aggregatorCode => aggregatorCodeSpec
  | .wrapperCode => wrapperCodeSpec
  | .timeout => timeoutSpec

/-- The variable that stands in for the setting. -/
def envName : Setting → String
  | .batchSize => "MULTICALL_BATCH_SIZE"
  | .maxConcurrentChunks => "MULTICALL_MAX_CONCURRENT_CHUNKS"
  | .deployless => "MULTICALL_DEPLOYLESS"
  | .address => "MULTICALL_ADDRESS"
  | .aggregatorCode => "MULTICALL_BYTECODE"
  | .wrapperCode => "DEPLOYLESS_CALL_BYTECODE"
  | .timeout => "MULTICALL_TIMEOUT"

/-- The setting among all seven. -/
def value (st : Settings) : (x : Setting) → x.Holds
  | .batchSize => st.batchSize
  | .maxConcurrentChunks => st.maxConcurrentChunks
  | .deployless => st.deployless
  | .address => st.address
  | .aggregatorCode => st.aggregatorCode
  | .wrapperCode => st.wrapperCode
  | .timeout => st.timeout

/-- The seven settings with another value for one of them. -/
def put (st : Settings) : (x : Setting) → x.Holds → Settings
  | .batchSize, a => { st with batchSize := a }
  | .maxConcurrentChunks, a => { st with maxConcurrentChunks := a }
  | .deployless, a => { st with deployless := a }
  | .address, a => { st with address := a }
  | .aggregatorCode, a => { st with aggregatorCode := a }
  | .wrapperCode, a => { st with wrapperCode := a }
  | .timeout, a => { st with timeout := a }

@[simp] theorem value_put_self (st : Settings) (x : Setting) (a : x.Holds) :
    x.value (x.put st a) = a := by
  cases x <;> rfl

theorem value_put_of_ne (st : Settings) {x y : Setting} (a : x.Holds) (h : y ≠ x) :
    y.value (x.put st a) = y.value st := by
  cases x <;> cases y <;> first | rfl | exact absurd rfl h

theorem envName_ne {x y : Setting} (h : y ≠ x) : y.envName ≠ x.envName := by
  cases x <;> cases y <;> first | decide | exact absurd rfl h

theorem name_ne {x y : Setting} (h : y ≠ x) : y.spec.name ≠ x.spec.name := by
  cases x <;> cases y <;> first | decide | exact absurd rfl h

/-- What stands in for a setting depends on its own variable only. -/
theorem fallback_congr (x : Setting) {env env' : Environment}
    (h : env.get? x.envName = env'.get? x.envName) :
    x.spec.fallback env = x.spec.fallback env' := by
  cases x with
  | batchSize => exact Environment.int_congr h 1024
  | maxConcurrentChunks => exact Environment.int_congr h 4
  | deployless => exact Environment.switch_congr h
  | address => exact Environment.text_congr (Environment.trimmed?_congr h)
  | aggregatorCode => exact Environment.text_congr (Environment.trimmed?_congr h)
  | wrapperCode => exact Environment.text_congr (Environment.trimmed?_congr h)
  | timeout => exact Environment.float_congr (Environment.trimmed?_congr h)

end Setting

variable {env : Environment} {given : Fields} {st : Settings}

/-- Settings are made from the sources of the seven, and from nothing else. -/
theorem make_congr {env' : Environment} {given' : Fields}
    (h : ∀ x : Setting, x.spec.source env given = x.spec.source env' given') :
    make env given = make env' given' := by
  have get (x : Setting) : x.spec.get env given = x.spec.get env' given' := by
    rw [Spec.get, h, Spec.get]
  have h₁ : batchSizeSpec.get env given = batchSizeSpec.get env' given' := get .batchSize
  have h₂ : maxConcurrentChunksSpec.get env given = maxConcurrentChunksSpec.get env' given' :=
    get .maxConcurrentChunks
  have h₃ : deploylessSpec.get env given = deploylessSpec.get env' given' := get .deployless
  have h₄ : addressSpec.get env given = addressSpec.get env' given' := get .address
  have h₅ : aggregatorCodeSpec.get env given = aggregatorCodeSpec.get env' given' :=
    get .aggregatorCode
  have h₆ : wrapperCodeSpec.get env given = wrapperCodeSpec.get env' given' := get .wrapperCode
  have h₇ : timeoutSpec.get env given = timeoutSpec.get env' given' := get .timeout
  simp only [make, h₁, h₂, h₃, h₄, h₅, h₆, h₇]

/-- Settings are made if and only if each of them is. -/
theorem make_eq_ok :
    make env given = .ok st ↔ ∀ x : Setting, x.spec.Gives env given (x.value st) := by
  constructor
  · intro made x
    obtain ⟨batchSize, h₁, made⟩ := Except.bind_eq_ok.mp made
    obtain ⟨maxConcurrentChunks, h₂, made⟩ := Except.bind_eq_ok.mp made
    obtain ⟨deployless, h₃, made⟩ := Except.bind_eq_ok.mp made
    obtain ⟨address, h₄, made⟩ := Except.bind_eq_ok.mp made
    obtain ⟨aggregatorCode, h₅, made⟩ := Except.bind_eq_ok.mp made
    obtain ⟨wrapperCode, h₆, made⟩ := Except.bind_eq_ok.mp made
    obtain ⟨timeout, h₇, made⟩ := Except.bind_eq_ok.mp made
    split at made
    · obtain rfl := Except.ok.inj made
      cases x with
      | batchSize => exact Spec.get_eq_ok.mp (Except.mapError_eq_ok.mp h₁)
      | maxConcurrentChunks => exact Spec.get_eq_ok.mp (Except.mapError_eq_ok.mp h₂)
      | deployless => exact Spec.get_eq_ok.mp (Except.mapError_eq_ok.mp h₃)
      | address => exact Spec.get_eq_ok.mp (Except.mapError_eq_ok.mp h₄)
      | aggregatorCode => exact Spec.get_eq_ok.mp (Except.mapError_eq_ok.mp h₅)
      | wrapperCode => exact Spec.get_eq_ok.mp (Except.mapError_eq_ok.mp h₆)
      | timeout => exact Spec.get_eq_ok.mp (Except.mapError_eq_ok.mp h₇)
    · cases made
  · intro gives
    have get (x : Setting) : x.spec.get env given = .ok (.ok (x.value st)) :=
      Spec.get_eq_ok.mpr (gives x)
    have h₁ : batchSizeSpec.get env given = .ok (.ok st.batchSize) := get .batchSize
    have h₂ : maxConcurrentChunksSpec.get env given = .ok (.ok st.maxConcurrentChunks) :=
      get .maxConcurrentChunks
    have h₃ : deploylessSpec.get env given = .ok (.ok st.deployless) := get .deployless
    have h₄ : addressSpec.get env given = .ok (.ok st.address) := get .address
    have h₅ : aggregatorCodeSpec.get env given = .ok (.ok st.aggregatorCode) := get .aggregatorCode
    have h₆ : wrapperCodeSpec.get env given = .ok (.ok st.wrapperCode) := get .wrapperCode
    have h₇ : timeoutSpec.get env given = .ok (.ok st.timeout) := get .timeout
    simp only [make, h₁, h₂, h₃, h₄, h₅, h₆, h₇, Except.mapError_ok, Except.ok_bind]

end Settings

end EthBatch
