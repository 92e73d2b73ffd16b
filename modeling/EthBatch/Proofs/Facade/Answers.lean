import EthBatch.Proofs.Address
import EthBatch.Proofs.Client.BlockFloor
import EthBatch.Proofs.Client.Spelling
import EthBatch.Proofs.Facade

/-!
# Calls through a facade

A function of a facade makes one call for each item of its arguments and hands them to the client.
As long as the facade keeps its state, these are the calls that the caller could make from the same
target and interface, and their results are those of the client. The state is kept unless a function
bears the name of a part of it, or one of the names that cannot be written.
-/

namespace EthBatch

open Except

/-- The text of an address is read as the address. -/
theorem Address.ofValue_text (a : Address) : Address.ofValue (.text a.text) = .ok a := by
  rw [Address.ofValue, Address.ofText?_text]
  rfl

/-- Options of known names can be set. -/
theorem CallOptions.ofFields_isOk {options : Fields}
    (known : ∀ o ∈ options, o.1 ∈ Facade.optionNames) : ∃ o, ofFields options = .ok o := by
  have set (start : CallOptions) :
      ∃ o, options.foldlM (fun o f => o.set f.1 f.2) start = .ok o := by
    induction options generalizing start with
    | nil => exact ⟨start, rfl⟩
    | cons f options ih =>
        obtain ⟨here, later⟩ := List.forall_mem_cons.mp known
        have first : ∃ o, start.set f.1 f.2 = .ok o := by
          simp only [Facade.optionNames, List.mem_cons, List.not_mem_nil, or_false] at here
          obtain h | h | h | h := here <;> exact ⟨_, by rw [h]; rfl⟩
        obtain ⟨o, first⟩ := first
        rw [List.foldlM_cons, first]
        exact ih later o
  exact set {}

namespace Facade

variable {f : Facade} {c : Client} {a : Address} {target : Value} {entries : List Value}
variable {name : String} {style : Style}

/-- The run of a client on calls of a function, one for each item. -/
def clientRun [Platform] (c : Client) (node : Node) (target interface : Value) (name : String)
    (items : List Value) (o : CallOptions) : Run :=
  match items.mapM fun args => Call.make target interface (.text name) args .null with
  | .ok calls => c.call node (calls.map .call) o none
  | .error e => .early (.raised (.fault e)) []

/-- A name leads to a function, and calling it is the client's run of the calls that are made from
the target and the interface as they were given. -/
structure Answers [Platform] (f : Facade) (c : Client) (target : Value) (entries : List Value)
    (name : String) : Prop where
  function : f.function name = .ok name
  call : ∀ node params items options, params.items? = some items →
    (∀ o ∈ options, o.1 ∈ optionNames) → ∃ o, CallOptions.ofFields options = .ok o ∧
      f.call node name params options = clientRun c node target (.list entries) name items o ∧
      f.plainCall node name params options =
        (clientRun c node target (.list entries) name items o).plain

/-- The calls of a facade are those that are made from its target as it was given, apart from the
spelling of the address. -/
theorem Keeps.calls [Platform] (keeps : f.Keeps c a entries)
    (valid : Address.ofValue target = .ok a)
    {params : Value} {items : List Value} (listed : params.items? = some items) (name : String) :
    f.calls name params =
      (items.mapM fun args => Call.make target (.list entries) (.text name) args .null).map
        (List.map (Call.spelled (.text a.text))) := by
  have targetValue : f.targetValue = .text a.text := by rw [Facade.targetValue, keeps.target]
  have interfaceValue : f.interfaceValue = .list entries := by
    rw [Facade.interfaceValue, keeps.interface]
  simp only [Facade.calls, listed, targetValue, interfaceValue,
    Call.make_spelled valid a.ofValue_text]
  exact mapM_map _

/-- A facade that keeps its state calls its functions like the client does. -/
theorem Keeps.call [Platform] (keeps : f.Keeps c a entries) (valid : Address.ofValue target = .ok a)
    {params : Value} {items : List Value} (listed : params.items? = some items) {options : Fields}
    (known : ∀ o ∈ options, o.1 ∈ optionNames) {o : CallOptions}
    (read : CallOptions.ofFields options = .ok o) (node : Node) (name : String) :
    f.call node name params options = clientRun c node target (.list entries) name items o := by
  have passed : ¬ (options.any fun o => !optionNames.contains o.1) = true := by
    rw [List.any_eq_true]
    rintro ⟨o, mem, unknown⟩
    simp [known o mem] at unknown
  rw [Facade.call, if_neg passed, keeps.calls valid listed, read, keeps.client, clientRun]
  cases items.mapM fun args => Call.make target (.list entries) (.text name) args .null with
  | error e => rfl
  | ok calls => exact Client.call_spelled (.text a.text) c node calls o none

/-- A function that is found and a state that is kept are all that is needed. -/
theorem Keeps.answers [Platform] (keeps : f.Keeps c a entries)
    (valid : Address.ofValue target = .ok a)
    (found : f.get? name = some (.function name)) : f.Answers c target entries name where
  function := by rw [function, found]
  call node params items options listed known := by
    obtain ⟨o, read⟩ := CallOptions.ofFields_isOk known
    have run := keeps.call valid listed known read node name
    exact ⟨o, read, run, congrArg Run.plain run⟩

theorem make_eq_ok [Platform] : make style (some c) target (.list entries) = .ok f ↔
    blank.setup c target (.list entries) = .ok f :=
  mapError_eq_ok

/-- A facade is built for a target with an interface, keeps its state, and calls each function that
only reads like the client does, exactly if no such function has a reserved name. A function with
the name of a part of the state takes its place, and with a function of a sealed name there is no
facade. -/
theorem answers_as_built_unless_reserved [Platform] (style : Style) (c : Client)
    (valid : Address.ofValue target = .ok a) (named : ∀ entry ∈ entries, HasName entry) :
    ((∃ f, make style (some c) target (.list entries) = .ok f ∧ f.Keeps c a entries ∧
        ∀ name, Exposes entries name → f.Answers c target entries name) ↔
      ∀ name, Exposes entries name → name ∉ reservedNames) ∧
    (∀ f, make style (some c) target (.list entries) = .ok f → ∀ name, Exposes entries name →
      f.function name = .ok name ∧ f.get? name = some (.function name)) ∧
    ∀ name, Exposes entries name → name ∈ sealedNames.map Prod.fst →
      ∀ f, make style (some c) target (.list entries) ≠ .ok f := by
  have exposed {f : Facade} (built : make style (some c) target (.list entries) = .ok f) :
      (viewNames entries).foldlM expose (blank.withState c a entries) = .ok f := by
    obtain ⟨a', entries', valid', read, -, exposed⟩ := setup_eq_ok.mp (make_eq_ok.mp built)
    obtain rfl := Except.ok.inj (valid.symm.trans valid')
    obtain rfl := Except.ok.inj read
    exact exposed
  have read : Abi.Interface.read (.list entries) = .ok entries := rfl
  refine ⟨?_, ?_, ?_⟩
  · rw [← exists_keeps_iff blank c valid read named]
    constructor
    · rintro ⟨f, built, keeps, -⟩
      exact ⟨f, make_eq_ok.mp built, keeps⟩
    · rintro ⟨f, setUp, keeps⟩
      have built : make style (some c) target (.list entries) = .ok f := make_eq_ok.mpr setUp
      exact ⟨f, built, keeps, fun name exposes =>
        keeps.answers valid (get?_of_exposes (exposed built) exposes)⟩
  · intro f built name exposes
    have found := get?_of_exposes (exposed built) exposes
    exact ⟨by rw [function, found], found⟩
  · intro name exposes isSealed f built
    exact lookup_eq_none_iff_not_mem.mp
      (not_sealed_of_mem (exposed built) (mem_viewNames.mpr exposes)) isSealed

/-- The entry of a function without inputs that only reads. -/
def reader (name : String) : Value :=
  .record [("type", .text "function"), ("name", .text name), ("inputs", .list []),
    ("stateMutability", .text "view")]

theorem exposes_readers {names : List String} :
    Exposes (names.map reader) name ↔ name ∈ names := by
  constructor
  · rintro ⟨fs, mem, -, named⟩
    obtain ⟨k, listed, same⟩ := List.mem_map.mp mem
    obtain rfl := Value.record.inj same
    have given : some (Value.text k) = some (Value.text name) := named
    obtain rfl := Value.text.inj (Option.some.inj given)
    exact listed
  · intro mem
    exact ⟨_, List.mem_map_of_mem mem, .inl rfl, rfl⟩

theorem hasName_of_mem_readers {names : List String} :
    ∀ entry ∈ names.map reader, HasName entry := by
  rintro _ mem
  obtain ⟨name, -, rfl⟩ := List.mem_map.mp mem
  exact ⟨_, rfl, fun _ => ⟨name, rfl⟩⟩

/-- The account of some target. -/
def ones : Address := .ofWord 0x1111111111111111111111111111111111111111

theorem ofValue_someTarget : Address.ofValue Call.someTarget = .ok ones := by
  decide +kernel

open scoped Platform.Lenient

/-- A function whose name begins with an underscore answers like any other. -/
theorem answers_as_built_unless_reserved_readers :
    ∃ f, make .tasks (some Client.terse) Call.someTarget
        (.list (["owner", "_owner"].map reader)) = .ok f ∧
      f.get? tableKey = some (.table ["owner", "_owner"]) ∧
      f.Answers Client.terse Call.someTarget (["owner", "_owner"].map reader) "_owner" := by
  obtain ⟨kept, -, -⟩ := answers_as_built_unless_reserved .tasks Client.terse ofValue_someTarget
    (@hasName_of_mem_readers ["owner", "_owner"])
  obtain ⟨f, built, keeps, answers⟩ := kept.mpr fun name exposes =>
    (by decide : ∀ name ∈ ["owner", "_owner"], name ∉ reservedNames) name
      (exposes_readers.mp exposes)
  have table : (viewNames (["owner", "_owner"].map reader)).eraseDups =
      ["owner", "_owner"] := by
    decide +kernel
  exact ⟨f, built, table ▸ keeps.table, answers _ (exposes_readers.mpr (by decide))⟩

/-- A function of the name under which the client is kept takes its place, and then no call is sent,
although the client sends it. -/
theorem exists_client_lost : ∃ f own,
    make .pool (some (.plain .pool)) Call.someTarget
      (.list (["_multicall"].map reader)) = .ok f ∧
    f.get? clientKey = some (.function "_multicall") ∧
    (∀ node, f.call node "_multicall" (.list [.list []]) [] =
      .early (.raised (.fault .noAttribute)) []) ∧
    Call.make Call.someTarget (.list (["_multicall"].map reader)) (.text "_multicall")
      (.list []) .null = .ok own ∧
    own.error?.isNone = true ∧
    (Client.plain .pool).Sends Client.troubled [own] {} none (some (.text Address.zero.text)) := by
  obtain ⟨f, built, lost, target, interface⟩ : ∃ f, blank.setup (.plain .pool) Call.someTarget
      (.list (["_multicall"].map reader)) = .ok f ∧
        f.get? clientKey = some (.function "_multicall") ∧
        f.targetValue = .text ones.text ∧
        f.interfaceValue = .list (["_multicall"].map reader) :=
    ⟨_, setup_eq_ok.mpr ⟨ones, _, ofValue_someTarget, rfl, hasName_of_mem_readers, rfl⟩, rfl, rfl,
      rfl⟩
  have encoded : ((Call.make Call.someTarget (.list (["_multicall"].map reader))
      (.text "_multicall") (.list []) .null).toOption.any fun own => own.error?.isNone) = true := by
    decide +kernel
  obtain ⟨own, made, fine⟩ := (Option.any_eq_true _ _).mp encoded
  have made := toOption_eq_some.mp made
  refine ⟨f, own, make_eq_ok.mpr built, lost, ?_, made, fine, ?_⟩
  · intro node
    have calls : f.calls "_multicall" (.list [.list []]) =
        .ok [own.spelled (.text ones.text)] := by
      simp only [Facade.calls, Value.items?, target, interface, List.mapM_cons,
        Call.make_spelled ofValue_someTarget ones.ofValue_text, made]
      rfl
    rw [Facade.call, calls, lost]
    rfl
  · have accepts : (Client.plain .pool).Accepts {} [own] := by
      refine ⟨⟨_, rfl⟩, (by decide : Value.isWritable (.int 1024) = true), ?_, ⟨_, rfl⟩, ⟨_, rfl⟩⟩
      rw [List.all_cons, Client.isReportable, fine]
      rfl
    exact Client.sends_of_destination (List.cons_ne_nil _ _) accepts
      (Client.destination_eq_ok.mpr (.own rfl rfl))

end Facade

end EthBatch
