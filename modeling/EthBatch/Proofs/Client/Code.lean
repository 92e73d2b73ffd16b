import EthBatch.Proofs.Client.Destination
import EthBatch.Proofs.Settings.Code

/-!
# The code that a client runs

The bytes that the settings state for the aggregator and for the wrapper are the ones that a
client sends. No digits stand for the built-in aggregator, but a wrapper without any is refused. A
code that was stated with a capital mark is refused by every client, although the settings hold it.
-/

namespace EthBatch

open Settings

namespace Client

variable {style : Style} {config : Config} {node : Node} {c : Client} {env : Environment}
variable {given : Fields} {st : Settings} {s : String} {b : Bytes}

/-- A client needs a connection, a chain that is known, an address that is one if there is any, and
a node that tells its chain. -/
structure Config.IsReady (config : Config) (node : Node) : Prop where
  connected : config.connected = true
  chain : ∃ v, namedChain config = .ok v
  address : ∃ own, chosenAddress config.address config.settings.address = .ok own
  told : ∃ v, node.chain = .ok v

/-- What is refused for want of a wrapper. -/
def wrapperMissing : Error := .deploylessNotConfigured (.text "deployless call wrapper bytecode")

theorem exists_configure_of_make (made : make style config node = .ok c) :
    ∃ c', configure style config = .ok c' ∧ c.wrapper = c'.wrapper ∧ c.code = c'.code := by
  obtain ⟨c', configured, rest⟩ := Except.bind_eq_ok.mp made
  refine ⟨c', configured, ?_⟩
  split at rest
  · split at rest
    · obtain rfl := Except.ok.inj rest
      exact ⟨rfl, rfl⟩
    · cases rest
  · obtain rfl := Except.ok.inj rest
    exact ⟨rfl, rfl⟩

/-- The wrapper and the code of a client are those that its configuration states. -/
theorem stated_of_make (made : make style config node = .ok c) :
    config.statedWrapper = .ok c.wrapper ∧ codeOf config.settings = .ok c.code := by
  obtain ⟨c', configured, wrapper, code⟩ := exists_configure_of_make made
  obtain ⟨_, _, _, _, _, _, _, stated, read, rfl⟩ := configure_eq_ok.mp configured
  exact ⟨stated.trans (congrArg _ wrapper.symm), read.trans (congrArg _ code.symm)⟩

namespace Config.IsReady

variable (ready : config.IsReady node)
include ready

/-- Nothing else than the wrapper and the code keeps a client from being made. -/
theorem make_isOk (style : Style) : (∃ c, make style config node = .ok c) ↔
    (∃ b, config.statedWrapper = .ok b) ∧ ∃ b, codeOf config.settings = .ok b := by
  constructor
  · rintro ⟨c, made⟩
    obtain ⟨stated, read⟩ := stated_of_make made
    exact ⟨⟨_, stated⟩, _, read⟩
  · rintro ⟨⟨wrapper, stated⟩, code, read⟩
    obtain ⟨chain, named⟩ := ready.chain
    obtain ⟨own, chosen⟩ := ready.address
    obtain ⟨v, told⟩ := ready.told
    have configured : configure style config = .ok _ := configure_eq_ok.mpr
      ⟨ready.connected, chain, own, wrapper, code, named, chosen, stated, read, rfl⟩
    rw [make, configured, Except.ok_bind, told]
    split
    · exact ⟨_, rfl⟩
    · exact ⟨_, rfl⟩

theorem make_of_wrapper_error {e : Error} (refused : config.statedWrapper = .error e)
    (style : Style) : make style config node = .error e := by
  obtain ⟨chain, named⟩ := ready.chain
  obtain ⟨own, chosen⟩ := ready.address
  simp [make, configure_eq, ready.connected, named, chosen, refused]

end Config.IsReady

theorem codeOf_of_bytes (read : st.code = .ok (some b)) :
    codeOf st = .ok (if b = [] then Evm.Aggregator.creationCode else b) := by
  rw [codeOf, read]
  cases b <;> rfl

theorem wrapperOf_of_bytes (read : codeBytes st.wrapperCode = .ok (some b)) :
    wrapperOf st = if b = [] then .error wrapperMissing else .ok b := by
  rw [wrapperOf, read]
  cases b <;> rfl

section

variable (made : Settings.make env given = .ok st)
include made

/-- The code of the aggregator can be read unless its mark is a capital one. -/
theorem codeOf_isOk : (∃ b, codeOf st = .ok b) ↔
    ∀ s, aggregatorCodeSpec.States env given s → ¬ HasCapitalMark s := by
  have gives : aggregatorCodeSpec.Gives env given st.aggregatorCode :=
    make_eq_ok.mp made .aggregatorCode
  constructor
  · rintro ⟨b, read⟩ s states capital
    rw [codeOf, Settings.code, (states.spoils rfl gives capital).unreadable] at read
    cases read
  · intro small
    by_cases stated : ∃ s, aggregatorCodeSpec.States env given s
    · obtain ⟨s, states⟩ := stated
      obtain ⟨b, keeps⟩ := states.keeps rfl gives (small s states)
      exact ⟨_, codeOf_of_bytes keeps.bytes⟩
    · have unset := Spec.eq_none_of_not_states rfl gives (not_exists.mp stated)
      rw [codeOf, Settings.code, unset]
      exact ⟨_, rfl⟩

/-- The wrapper can be read unless its mark is a capital one or it has no digits. -/
theorem wrapperOf_isOk : (∃ b, wrapperOf st = .ok b) ↔
    ∀ s, wrapperCodeSpec.States env given s →
      ¬ HasCapitalMark s ∧ Hex.dropMark s.toList ≠ [] := by
  have gives : wrapperCodeSpec.Gives env given st.wrapperCode := make_eq_ok.mp made .wrapperCode
  constructor
  · rintro ⟨b, read⟩ s states
    by_cases capital : HasCapitalMark s
    · rw [wrapperOf, (states.spoils rfl gives capital).unreadable] at read
      cases read
    · obtain ⟨b', keeps⟩ := states.keeps rfl gives capital
      refine ⟨capital, ?_⟩
      intro none
      rw [wrapperOf_of_bytes keeps.bytes, if_pos (keeps.spelled.eq_nil_iff.mpr none)] at read
      cases read
  · intro usable
    by_cases stated : ∃ s, wrapperCodeSpec.States env given s
    · obtain ⟨s, states⟩ := stated
      obtain ⟨small, digits⟩ := usable s states
      obtain ⟨b, keeps⟩ := states.keeps rfl gives small
      rw [wrapperOf_of_bytes keeps.bytes,
        if_neg fun none => digits (keeps.spelled.eq_nil_iff.mp none)]
      exact ⟨b, rfl⟩
    · have unset := Spec.eq_none_of_not_states rfl gives (not_exists.mp stated)
      rw [wrapperOf, unset]
      exact ⟨_, rfl⟩

end

/-- A code that is accepted is usable if and only if its mark is not a capital one: what is stored
is accepted again without a change, has the bytes that the digits state, and these are the bytes of
every client, where no bytes stand for the built-in aggregator and are refused as a wrapper. Nothing
but a capital mark or a wrapper without digits keeps a client from being made. -/
theorem code_usable_unless_capital (made : Settings.make env given = .ok st) :
    (∀ s, aggregatorCodeSpec.States env given s →
      (HasCapitalMark s → aggregatorCodeSpec.Spoils st.aggregatorCode) ∧
      (¬ HasCapitalMark s → ∃ b, aggregatorCodeSpec.Keeps s st.aggregatorCode b ∧
        ∀ style config node c, config.settings = st → make style config node = .ok c →
          c.code = if b = [] then Evm.Aggregator.creationCode else b)) ∧
    (∀ s, wrapperCodeSpec.States env given s →
      (HasCapitalMark s → wrapperCodeSpec.Spoils st.wrapperCode) ∧
      (¬ HasCapitalMark s → ∃ b, wrapperCodeSpec.Keeps s st.wrapperCode b ∧
        ∀ style config node, config.settings = st → config.wrapper = none →
          (∀ c, make style config node = .ok c → c.wrapper = b) ∧
          (config.IsReady node → b = [] → make style config node = .error wrapperMissing))) ∧
    ∀ style config node, config.settings = st → config.IsReady node →
      ((∃ c, make style config node = .ok c) ↔
        (config.wrapper = none → ∀ s, wrapperCodeSpec.States env given s →
          ¬ HasCapitalMark s ∧ Hex.dropMark s.toList ≠ []) ∧
        ∀ s, aggregatorCodeSpec.States env given s → ¬ HasCapitalMark s) := by
  refine ⟨?_, ?_, ?_⟩
  · intro s states
    have gives : aggregatorCodeSpec.Gives env given st.aggregatorCode :=
      make_eq_ok.mp made .aggregatorCode
    refine ⟨states.spoils rfl gives, ?_⟩
    intro small
    obtain ⟨b, keeps⟩ := states.keeps rfl gives small
    refine ⟨b, keeps, ?_⟩
    rintro style config node c rfl built
    have read := (stated_of_make built).2
    rw [codeOf_of_bytes keeps.bytes] at read
    exact (Except.ok.inj read).symm
  · intro s states
    have gives : wrapperCodeSpec.Gives env given st.wrapperCode := make_eq_ok.mp made .wrapperCode
    refine ⟨states.spoils rfl gives, ?_⟩
    intro small
    obtain ⟨b, keeps⟩ := states.keeps rfl gives small
    refine ⟨b, keeps, ?_⟩
    rintro style config node rfl unset
    have stated : config.statedWrapper = if b = [] then .error wrapperMissing else .ok b := by
      rw [Config.statedWrapper, unset]
      exact wrapperOf_of_bytes keeps.bytes
    constructor
    · intro c built
      rw [(stated_of_make built).1] at stated
      split at stated
      · cases stated
      · exact Except.ok.inj stated
    · intro ready none
      rw [if_pos none] at stated
      exact ready.make_of_wrapper_error stated style
  · rintro style config node rfl ready
    rw [ready.make_isOk, ← codeOf_isOk made, ← wrapperOf_isOk made, Config.statedWrapper]
    cases config.wrapper with
    | none => simp
    | some b => simp

/-- A code with a capital mark is stored, but refused when it is given again, and no client can be
made from the settings. -/
theorem exists_code_spoiled : ∃ st t, Settings.make [] [("multicall_bytecode", .text "0X6001")] =
      .ok st ∧
    st.aggregatorCode = some t ∧
    Settings.make [] [("multicall_bytecode", .text t)] =
      .error (.settings [⟨"multicall_bytecode", .notHex⟩]) ∧
    st.code = .error .notHex ∧
    ∀ style config node c, config.settings = st → make style config node ≠ .ok c := by
  refine ⟨⟨1024, 4, false, none, some "0x0X6001", none, none⟩, "0x0X6001", rfl, rfl, rfl, rfl, ?_⟩
  intro style config node c same built
  have read := (stated_of_make built).2
  rw [same] at read
  cases read

/-- Settings with four digits for the aggregator and three for the wrapper. -/
def spelledOut : Settings := ⟨1024, 4, false, none, some "0x6001", some "0xaBc", none⟩

/-- A client for a chain that is known, with nothing but settings. -/
def withSettings (st : Settings) : Config := ⟨true, .int 1, .null, .null, st, .empty, none⟩

theorem isReady_withSettings (st : Settings) : (withSettings st).IsReady troubled :=
  ⟨rfl, ⟨_, rfl⟩, ⟨_, rfl⟩, _, rfl⟩

/-- The digits of the aggregator come from a variable, and those of the wrapper are given. -/
theorem code_usable_unless_capital_spelledOut :
    Settings.make [("MULTICALL_BYTECODE", " 6001")] [("deployless_bytecode", .text "0xaBc")] =
      .ok spelledOut ∧
    ∃ c, make .pool (withSettings spelledOut) troubled = .ok c ∧ c.code = [0x60, 0x01] ∧
      c.wrapper = [0x0a, 0xbc] := by
  refine ⟨rfl, ?_⟩
  obtain ⟨aggregator, wrapper, buildable⟩ := @code_usable_unless_capital
    [("MULTICALL_BYTECODE", " 6001")] [("deployless_bytecode", .text "0xaBc")] spelledOut rfl
  have fromVariable : aggregatorCodeSpec.States [("MULTICALL_BYTECODE", " 6001")]
      [("deployless_bytecode", .text "0xaBc")] "6001" := (Spec.states_variable rfl rfl).mpr rfl
  have isGiven : wrapperCodeSpec.States [("MULTICALL_BYTECODE", " 6001")]
      [("deployless_bytecode", .text "0xaBc")] "0xaBc" := (Spec.states_given rfl).mpr rfl
  have bare : ¬ HasCapitalMark "6001" := by decide
  have small : ¬ HasCapitalMark "0xaBc" := by decide
  obtain ⟨code, keepsCode, inClients⟩ := (aggregator _ fromVariable).2 bare
  obtain ⟨wrapped, keepsWrapper, inRequests⟩ := (wrapper _ isGiven).2 small
  obtain rfl : code = [0x60, 0x01] := (Option.some.inj (Except.ok.inj keepsCode.bytes)).symm
  obtain rfl : wrapped = [0x0a, 0xbc] := (Option.some.inj (Except.ok.inj keepsWrapper.bytes)).symm
  obtain ⟨c, built⟩ := (buildable .pool _ troubled rfl (isReady_withSettings spelledOut)).mpr
    ⟨fun _ s states => states.unique isGiven ▸ ⟨small, List.cons_ne_nil _ _⟩,
      fun s states => states.unique fromVariable ▸ bare⟩
  exact ⟨c, built, inClients _ _ _ c rfl built, (inRequests _ _ _ rfl rfl).1 c built⟩

end Client

end EthBatch
