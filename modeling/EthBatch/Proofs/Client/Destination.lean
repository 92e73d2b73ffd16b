import EthBatch.Proofs.Client.Batching
import EthBatch.Proofs.Client.Contents

/-!
# Where the requests of a call go

The destination of a call is decided once, and the block is the caller's. Every request then goes
to that destination, unless a deployless call was asked for although there is an address: the
address is found and checked, but the requests go without it.
-/

namespace EthBatch

namespace Client

/-- The settings of a client, its own address and its registry come from a configuration. The
address given there goes before the one in the settings. -/
structure IsMadeFrom (config : Config) (c : Client) : Prop where
  settings : c.settings = config.settings
  address : chosenAddress config.address config.settings.address = .ok c.customAddress
  registry : c.registry = registryOf config.registry

/-- The wrapper that is given with a configuration, or else the one of its settings. -/
def Config.statedWrapper (config : Config) : Except Error Bytes :=
  match config.wrapper with
  | some b => .ok b
  | none => wrapperOf config.settings

theorem configure_eq (style : Style) (config : Config) : configure style config =
    (if !config.connected then .error (.missingSource (constructorName style) "transport")
    else do
      let chain ← (namedChain config).mapError .fault
      let own ← (chosenAddress config.address config.settings.address).mapError .fault
      let wrapper ← config.statedWrapper
      let code ← codeOf config.settings
      .ok ⟨style, chain, own, config.settings, registryOf config.registry, wrapper, code⟩) := by
  rw [configure, Config.statedWrapper]
  cases config.wrapper <;> rfl

/-- A client is configured if there is a connection and each of its parts can be read. -/
theorem configure_eq_ok {style : Style} {config : Config} {c : Client} :
    configure style config = .ok c ↔ config.connected = true ∧ ∃ chain own wrapper code,
      namedChain config = .ok chain ∧
      chosenAddress config.address config.settings.address = .ok own ∧
      config.statedWrapper = .ok wrapper ∧ codeOf config.settings = .ok code ∧
      c = ⟨style, chain, own, config.settings, registryOf config.registry, wrapper, code⟩ := by
  rw [configure_eq]
  constructor
  · intro h
    split at h
    · cases h
    · next connected =>
      obtain ⟨chain, named, h⟩ := Except.bind_eq_ok.mp h
      obtain ⟨own, chosen, h⟩ := Except.bind_eq_ok.mp h
      obtain ⟨wrapper, stated, h⟩ := Except.bind_eq_ok.mp h
      obtain ⟨code, read, h⟩ := Except.bind_eq_ok.mp h
      exact ⟨by simpa using connected, chain, own, wrapper, code, Except.mapError_eq_ok.mp named,
        Except.mapError_eq_ok.mp chosen, stated, read, (Except.ok.inj h).symm⟩
  · rintro ⟨connected, chain, own, wrapper, code, named, chosen, stated, read, rfl⟩
    simp [connected, named, chosen, stated, read]

theorem isMadeFrom_of_configure {style : Style} {config : Config} {c : Client}
    (h : configure style config = .ok c) : IsMadeFrom config c := by
  obtain ⟨_, _, _, _, _, _, chosen, _, _, rfl⟩ := configure_eq_ok.mp h
  exact ⟨rfl, chosen, rfl⟩

theorem isMadeFrom_of_make {style : Style} {config : Config} {node : Node} {c : Client}
    (made : make style config node = .ok c) : IsMadeFrom config c := by
  obtain ⟨configured, h, rest⟩ := Except.bind_eq_ok.mp made
  obtain ⟨settings, address, registry⟩ := isMadeFrom_of_configure h
  split at rest
  · split at rest
    · obtain rfl := Except.ok.inj rest
      exact ⟨settings, address, registry⟩
    · cases rest
  · obtain rfl := Except.ok.inj rest
    exact ⟨settings, address, registry⟩

/-- Where a call goes: to the address that is given with it, else to the client's own, else to
none if it is deployless, else to the registered one. -/
inductive Resolves (c : Client) (address : Value) (deployless : Bool) (block : Value) :
    Option Value → Prop
  | given {a : Address} (present : address.truthy = true)
      (valid : Address.ofValue address = .ok a) :
      Resolves c address deployless block (some (.text a.text))
  | own {a : Address} (absent : address.truthy = false) (custom : c.customAddress = some a) :
      Resolves c address deployless block (some (.text a.text))
  | nowhere (absent : address.truthy = false) (unset : c.customAddress = none)
      (asked : deployless = true) : Resolves c address deployless block none
  | registered {v : Value} (absent : address.truthy = false) (unset : c.customAddress = none)
      (unasked : deployless = false) (found : c.registered block = .ok v) :
      Resolves c address deployless block v.given?

theorem chosenAddress_eq_ok {given : Value} {own chosen : Option Address} :
    chosenAddress given own = .ok chosen ↔
      (given.truthy = true ∧ ∃ a, Address.ofValue given = .ok a ∧ some a = chosen) ∨
      (given.truthy = false ∧ own = chosen) := by
  cases some : given.truthy <;> simp [chosenAddress, some, Except.map_eq_ok]

/-- The destination is decided by these rules. -/
theorem destination_eq_ok {c : Client} {address block : Value} {deployless : Bool}
    {d : Option Value} : c.destination address deployless block = .ok d ↔
      c.Resolves address deployless block d := by
  constructor
  · intro h
    obtain ⟨chosen, choice, h⟩ := Except.bind_eq_ok.mp h
    rcases chosenAddress_eq_ok.mp (Except.mapError_eq_ok.mp choice) with
      ⟨present, a, valid, rfl⟩ | ⟨absent, rfl⟩
    · cases h
      exact .given present valid
    · cases custom : c.customAddress with
      | some a =>
          rw [custom] at h
          cases h
          exact .own absent custom
      | none =>
          rw [custom] at h
          cases deployless with
          | true =>
              cases h
              exact .nowhere absent custom rfl
          | false =>
              obtain ⟨v, found, rfl⟩ := Except.map_eq_ok.mp h
              exact .registered absent custom rfl found
  · intro h
    cases h with
    | given present valid => simp [destination, chosenAddress, present, valid, Except.map]
    | own absent custom => simp [destination, chosenAddress, absent, custom]
    | nowhere absent unset asked => simp [destination, chosenAddress, absent, unset, asked]
    | registered absent unset unasked found =>
        simp [destination, chosenAddress, absent, unset, unasked, found, Except.map]

/-- The error of a client whose chain has no aggregator at a block, as far as it can be worded. -/
def unsupported (c : Client) (block : Value) : Error :=
  Error.worded (.chainUnsupported c.chain (.text "multicall3") block)

theorem unsupported_of_isWritable {c : Client} {block : Value} (chain : c.chain.isWritable = true)
    (written : block.isWritable = true) :
    c.unsupported block = .chainUnsupported c.chain (.text "multicall3") block := by
  simp [unsupported, Error.worded, Error.subjects, chain, written, Value.isWritable]

theorem unsupported_of_unwritable {c : Client} (chain : c.chain.isWritable = false)
    (block : Value) : c.unsupported block = .fault .badValue := by
  simp [unsupported, Error.worded, Error.subjects, chain]

/-- What a client makes of the entry for its chain: the height that the block states is compared
with the creation of the aggregator. -/
def addressAt (c : Client) (block : Value) : Option Deployment → Except Error Value
  | none => .error (c.unsupported .null)
  | some d => do
    match ← (Block.height block).mapError .fault with
    | none => .ok d.address
    | some n =>
      if ← (d.isCreatedAfter n).mapError .fault then .error (c.unsupported (.int n))
      else .ok d.address

theorem registered_of_get {c : Client} {entry : Option Deployment}
    (found : c.registry.get c.chain = .ok entry) (block : Value) :
    c.registered block = c.addressAt block entry := by
  have known : c.chain ≠ .null := by
    intro none
    rw [none] at found
    cases found
  rw [registered]
  split
  · exact absurd ‹_› known
  · rw [found]
    cases entry <;> rfl

/-- The request for a chunk that goes to a destination: the calldata for an address, and the
wrapped code for none. -/
def requestTo (c : Client) (destination : Option Value) (block : Value) (chunk : List SubCall) :
    Request :=
  match destination with
  | some address => ⟨some address, Aggregate.calldata chunk, block⟩
  | none => ⟨none, c.wrapper ++ Deployless.arguments c.code (Aggregate.calldata chunk), block⟩

@[simp] theorem recipient_requestTo (c : Client) (d : Option Value) (block : Value)
    (chunk : List SubCall) : (c.requestTo d block chunk).recipient = d := by
  cases d <;> rfl

@[simp] theorem block_requestTo (c : Client) (d : Option Value) (block : Value)
    (chunk : List SubCall) : (c.requestTo d block chunk).block = block := by
  cases d <;> rfl

/-- A destination can be told from its request. -/
theorem requestTo_inj {c : Client} {d d' : Option Value} {block : Value} {chunk : List SubCall} :
    c.requestTo d block chunk = c.requestTo d' block chunk ↔ d = d' := by
  constructor
  · intro same
    simpa using congrArg Request.recipient same
  · intro same
    rw [same]

/-- Requests take a route to its address, or to none if it is deployless. -/
theorem requestFor_eq_requestTo (c : Client) (r : Route) (chunk : List SubCall) :
    c.requestFor r chunk =
      c.requestTo (if r.deployless then none else r.address) r.block chunk := by
  obtain ⟨address, deployless, block⟩ := r
  cases deployless <;> cases address <;> rfl

/-- Is a call to be deployless, by its options or else by the settings? -/
def isDeployless (c : Client) (options : CallOptions) : Bool :=
  (options.within c.settings).deployless.truthy

/-- An address is found, and a deployless call is asked for. -/
def Overridden (deployless : Bool) (destination : Option Value) : Prop :=
  deployless = true ∧ destination.isSome = true

theorem unused_eq_iff {deployless : Bool} {d : Option Value} :
    (if deployless then none else d) = d ↔ ¬ Overridden deployless d := by
  cases deployless <;> cases d <;> simp [Overridden]

variable {c : Client} {node : Node} {items : List CallItem} {options : CallOptions}
variable {cancelAfter : Option Nat}

/-- The requests of a run that has started are those of the chunks that are sent. -/
theorem mem_requests_iff [Platform] {calls : List Call} {chunks : List (List SubCall)} {r : Route}
    {limit : Option Nat} {deadline : Schedule.Deadline}
    (h : c.Started (options.within c.settings) calls chunks r limit deadline) {k : Nat}
    {q : Request} :
    (k, q) ∈ (c.call node (calls.map .call) options cancelAfter).requests ↔
      ∃ chunk, chunks[k]? = some chunk ∧ c.isSent node r limit chunks deadline k = true ∧
        q = c.requestFor r chunk := by
  rw [h.requests_call, mem_requests_entriesFor]

/-- A request is that of a chunk of a run that has started. -/
theorem exists_route_of_mem_requests [Platform] {k : Nat} {q : Request}
    (mem : (k, q) ∈ (c.call node items options cancelAfter).requests) :
    ∃ calls chunks r limit deadline chunk, items = calls.map .call ∧
      c.Started (options.within c.settings) calls chunks r limit deadline ∧
      chunks[k]? = some chunk ∧ q = c.requestFor r chunk := by
  rcases call_cases c node items options cancelAfter with
    ⟨calls, chunks, r, limit, deadline, rfl, started⟩ | ⟨outcome, log, early, _⟩
  · obtain ⟨chunk, here, -, rfl⟩ := (mem_requests_iff started).mp mem
    exact ⟨calls, chunks, r, limit, deadline, chunk, rfl, started, here, rfl⟩
  · rw [early] at mem
    cases mem

/-- Every request goes to the destination of its call, or to none if the call is deployless. -/
theorem eq_requestTo_of_mem_requests [Platform] {d : Option Value} {k : Nat} {q : Request}
    (found : c.destination options.address (c.isDeployless options) options.block = .ok d)
    (mem : (k, q) ∈ (c.call node items options cancelAfter).requests) :
    ∃ calls chunks chunk, items = calls.map .call ∧
      plan calls (options.within c.settings).batchSize = .ok chunks ∧ chunks[k]? = some chunk ∧
      q = c.requestTo (if c.isDeployless options then none else d) options.block chunk := by
  obtain ⟨calls, chunks, r, limit, deadline, chunk, items, started, here, rfl⟩ :=
    exists_route_of_mem_requests mem
  refine ⟨calls, chunks, chunk, items, started.plan, here, ?_⟩
  have address : r.address = d := Except.ok.inj (started.destination.symm.trans found)
  have block : r.block = options.block := started.block
  -- Without an address, a call is deployless even if this is not asked for.
  have recipient : (if r.deployless then none else r.address) =
      if c.isDeployless options then none else d := by
    rw [started.deployless, address, isDeployless]
    cases (options.within c.settings).deployless.truthy <;> cases d <;> rfl
  rw [requestFor_eq_requestTo, recipient, block]

/-- A call without a destination sends nothing. The requests of any other call keep the caller's
block, and go to its destination if and only if the destination is not overridden; they are
deployless if it is. -/
theorem requests_follow_destination_unless_overridden [Platform] (c : Client) (node : Node)
    (items : List CallItem) (options : CallOptions) (cancelAfter : Option Nat) :
    (∀ style config n, make style config n = .ok c → IsMadeFrom config c) ∧
    (∀ e, c.destination options.address (c.isDeployless options) options.block = .error e →
      c.call node items options cancelAfter = .early (.raised e) []) ∧
    ∀ d, c.destination options.address (c.isDeployless options) options.block = .ok d →
      c.Resolves options.address (c.isDeployless options) options.block d ∧
      ∀ k q, (k, q) ∈ (c.call node items options cancelAfter).requests →
        q.block = options.block ∧ ∃ calls chunks chunk, items = calls.map .call ∧
          plan calls (options.within c.settings).batchSize = .ok chunks ∧
          chunks[k]? = some chunk ∧
          (q = c.requestTo d options.block chunk ↔ ¬ Overridden (c.isDeployless options) d) ∧
          (Overridden (c.isDeployless options) d →
            q = c.requestTo none options.block chunk) := by
  refine ⟨fun _ _ _ => isMadeFrom_of_make, ?_, ?_⟩
  · intro e refused
    have refused : c.destination (options.within c.settings).address
        (options.within c.settings).deployless.truthy (options.within c.settings).block =
          .error e := refused
    simp only [call, refused]
  · intro d found
    refine ⟨destination_eq_ok.mp found, ?_⟩
    intro k q mem
    obtain ⟨calls, chunks, chunk, items, planned, here, rfl⟩ :=
      eq_requestTo_of_mem_requests found mem
    refine ⟨block_requestTo .., calls, chunks, chunk, items, planned, here, ?_, ?_⟩
    · rw [requestTo_inj, unused_eq_iff]
    · intro overridden
      rw [overridden.1, if_pos rfl]

open scoped Platform.Lenient

/-- A call to an address that is named with it, which may be asked to be deployless. -/
def named (deployless : Bool) : CallOptions :=
  { address := .text "0x2222222222222222222222222222222222222222"
    deployless := .bool deployless }

/-- The address that is named. -/
def twos : Address := .ofWord 0x2222222222222222222222222222222222222222

theorem destination_named (deployless : Bool) :
    terse.destination (named deployless).address (terse.isDeployless (named deployless))
      (named deployless).block = .ok (some (.text twos.text)) :=
  have valid : Address.ofValue (.text "0x2222222222222222222222222222222222222222") = .ok twos := by
    decide +kernel
  destination_eq_ok.mpr (.given rfl valid)

/-- One request is sent, whether the call is asked to be deployless or not. -/
theorem requests_named (deployless : Bool) :
    (terse.call troubled [.call broken] (named deployless) none).requests =
      [(0, terse.requestFor ⟨some (.text twos.text), deployless, .text "latest"⟩
        [.ofCall broken])] := by
  have started : terse.Started ((named deployless).within terse.settings) [broken]
      [[.ofCall broken]] ⟨some (.text twos.text), deployless, .text "latest"⟩ (some 4) .never :=
    ⟨destination_named deployless, (Bool.or_false _).symm, rfl, List.cons_ne_nil _ _, rfl, rfl,
      (by decide : Value.isWritable (.int 1024) = true), rfl, rfl⟩
  exact started.requests_call.trans rfl

/-- A call that names an address and asks to be deployless is sent to nobody. -/
theorem exists_request_off_destination : ∃ a q,
    terse.destination (named true).address (terse.isDeployless (named true)) (named true).block =
      .ok (some a) ∧
    (0, q) ∈ (terse.call troubled [.call broken] (named true) none).requests ∧
    q.recipient = none ∧ q ≠ terse.requestTo (some a) (named true).block [.ofCall broken] := by
  refine ⟨_, terse.requestFor ⟨some (.text twos.text), true, .text "latest"⟩ [.ofCall broken],
    destination_named true, ?_, rfl, ?_⟩
  · rw [requests_named]
    exact List.mem_singleton_self _
  · intro same
    cases congrArg Request.recipient same

/-- The same call goes to its address if it does not ask to be deployless. -/
theorem requests_follow_destination_unless_overridden_named :
    ∃ q, (0, q) ∈ (terse.call troubled [.call broken] (named false) none).requests ∧
      q = terse.requestTo (some (.text twos.text)) (.text "latest") [.ofCall broken] := by
  refine ⟨_, requests_named false ▸ List.mem_singleton_self _, ?_⟩
  obtain ⟨_, _, follows⟩ := requests_follow_destination_unless_overridden terse troubled
    [.call broken] (named false) none
  obtain ⟨_, follow⟩ := follows _ (destination_named false)
  obtain ⟨_, calls, chunks, chunk, items, planned, here, direct, _⟩ :=
    follow 0 _ (requests_named false ▸ List.mem_singleton_self _)
  obtain rfl : [broken] = calls := Except.ok.inj (items ▸ prepare_map calls)
  obtain rfl : [[.ofCall broken]] = chunks := Except.ok.inj planned
  obtain rfl : [.ofCall broken] = chunk := Option.some.inj here
  exact direct.mpr fun overridden => Bool.false_ne_true overridden.1

end Client

end EthBatch
