import EthBatch.Proofs.Client.BlockFloor
import EthBatch.Proofs.Client.Code
import EthBatch.Proofs.Registry

/-!
# The registry that a client asks

A client is made with a registry, and a call that leaves its destination to it finds what was filed
there: the requests go to the address that the registry has for the chain, and without one there are
no requests. A registry in which nothing was ever filed is not asked. The default one is asked in
its place, and may send the requests to a contract that was never registered.
-/

namespace EthBatch

namespace Client

variable {style : Style} {config : Config} {asked node : Node} {c : Client} {o : Registry.Origin}
variable {options : CallOptions} {cancelAfter : Option Nat} {n : Int} {found : Option Deployment}

/-- A call leaves its destination to the registry, at the latest block: no address is given with it
or with the client, and it is not deployless. -/
structure LeavesToRegistry (config : Config) (c : Client) (options : CallOptions) : Prop where
  unset : config.address.truthy = false
  unsettled : config.settings.address = none
  unnamed : options.address.truthy = false
  unasked : c.isDeployless options = false
  latest : options.block = .text "latest"

/-- Calls go where an entry says. If there is none, they are refused with the chain, unless that is
a number that cannot be written, and nothing is sent. -/
def Heeds [Platform] (c : Client) (node : Node) (options : CallOptions) (cancelAfter : Option Nat) :
    Option Deployment → Prop
  | some d =>
    c.destination options.address (c.isDeployless options) options.block = .ok d.address.given? ∧
    (∀ items k q, (k, q) ∈ (c.call node items options cancelAfter).requests →
      q.recipient = d.address.given?) ∧
    ∀ calls, calls ≠ [] → c.Accepts options calls →
      c.Sends node calls options cancelAfter d.address.given?
  | none =>
    (∃ e, c.destination options.address (c.isDeployless options) options.block = .error e) ∧
    (c.chain.isWritable = true → ∀ items, c.call node items options cancelAfter =
      .early (.raised (.chainUnsupported c.chain (.text "multicall3") .null)) []) ∧
    (c.chain.isWritable = false → ∀ items, c.call node items options cancelAfter =
      .early (.raised (.fault .badValue)) [])

/-- A chain that is given is the chain of the client. -/
theorem chain_of_make (made : make style config asked = .ok c) (given : config.chain ≠ .null) :
    c.chain = config.chain := by
  obtain ⟨configured, h, rest⟩ := Except.bind_eq_ok.mp made
  obtain ⟨_, chain, _, _, _, named, _, _, _, rfl⟩ := configure_eq_ok.mp h
  have kept : chain = config.chain := by
    rw [namedChain] at named
    split at named
    · next absent => exact absurd absent given
    · exact (Except.ok.inj named).symm
  split at rest
  · next asks =>
    rw [asksForChain] at asks
    split at asks
    · next absent => exact absurd (kept.symm.trans absent) given
    · cases asks
  · obtain rfl := Except.ok.inj rest
    exact kept

/-- At the latest block the entry of the registry is the destination. -/
theorem registered_latest (number : Chain.number c.chain = .ok n) :
    c.registered (.text "latest") =
      match c.registry.lookup n with
      | some d => .ok d.address
      | none => .error (c.unsupported .null) := by
  have found : c.registry.get c.chain = .ok (c.registry.lookup n) := by
    rw [Registry.get, number]
    rfl
  have latest : Block.height (.text "latest") = .ok none := by decide +kernel
  rw [registered_of_get found]
  cases c.registry.lookup n with
  | none => rfl
  | some d => simp [addressAt, latest]

/-- A call that is not deployless heeds what decides its destination. -/
theorem heeds_of_destination [Platform] (unasked : c.isDeployless options = false)
    (goes : c.destination options.address (c.isDeployless options) options.block =
      match found with
      | some d => .ok d.address.given?
      | none => .error (c.unsupported .null)) : c.Heeds node options cancelAfter found := by
  cases found with
  | none =>
      have refused (items : List CallItem) : c.call node items options cancelAfter =
          .early (.raised (c.unsupported .null)) [] := call_of_destination_error goes
      refine ⟨⟨_, goes⟩, ?_, ?_⟩
      · intro chain items
        rw [refused, unsupported_of_isWritable chain rfl]
      · intro chain items
        rw [refused, unsupported_of_unwritable chain]
  | some d =>
      refine ⟨goes, ?_, fun _ nonempty accepts => sends_of_destination nonempty accepts goes⟩
      intro items k q mem
      obtain ⟨_, _, _, -, -, -, rfl⟩ := eq_requestTo_of_mem_requests goes mem
      rw [recipient_requestTo, unasked, if_neg Bool.false_ne_true]

/-- Nothing but the entry for the chain decides where such a call goes. -/
theorem LeavesToRegistry.heeds [Platform] (leaves : LeavesToRegistry config c options)
    (made : make style config asked = .ok c) (number : Chain.number c.chain = .ok n) :
    c.Heeds node options cancelAfter (c.registry.lookup n) := by
  have none : c.customAddress = none := by
    have chosen := (isMadeFrom_of_make made).address
    simp only [chosenAddress, leaves.unset, leaves.unsettled, Bool.false_eq_true,
      if_false] at chosen
    exact (Except.ok.inj chosen).symm
  apply heeds_of_destination leaves.unasked
  rw [leaves.latest, destination, chosenAddress, if_neg (by simp [leaves.unnamed]), none,
    leaves.unasked, registered_latest number]
  cases c.registry.lookup n <;> rfl

/-- Calls can only heed one thing: an entry, or that there is none. -/
theorem Heeds.isSome_eq [Platform] {other : Option Deployment}
    (h : c.Heeds node options cancelAfter found)
    (h' : c.Heeds node options cancelAfter other) : found.isSome = other.isSome := by
  cases found <;> cases other
  · rfl
  · obtain ⟨⟨e, refused⟩, -⟩ := h
    exact nomatch refused.symm.trans h'.1
  · obtain ⟨⟨e, refused⟩, -⟩ := h'
    exact nomatch refused.symm.trans h.1
  · rfl

/-- The registry of a client is the one that is given, unless nothing was filed there. -/
theorem registry_of_make (filed : config.registry.ComesFrom o)
    (made : make style config asked = .ok c) :
    c.registry = if o.history = [] then .default else config.registry := by
  rw [(isMadeFrom_of_make made).registry, registryOf]
  exact if_congr filed.size_eq_zero_iff rfl rfl

/-- A client keeps the chain that is given. It asks the registry that is given, and no other, unless
nothing was ever filed there. Calls that leave their destination to the registry go where its entry
says, and are refused without a request if it has none, unless nothing was filed and the default
registry knows the chain. In that case they go where the default registry says. -/
theorem asks_own_registry_unless_blank [Platform] (node : Node) (cancelAfter : Option Nat)
    (filed : config.registry.ComesFrom o) (made : make style config asked = .ok c)
    (number : Chain.number c.chain = .ok n) (leaves : LeavesToRegistry config c options) :
    (config.chain ≠ .null → c.chain = config.chain) ∧
    (c.registry = config.registry ↔ o.history ≠ []) ∧
    (c.Heeds node options cancelAfter (o.answer n) ↔
      ¬ (o.history = [] ∧ (Registry.default.lookup n).isSome = true)) ∧
    (o.history = [] → c.Heeds node options cancelAfter (Registry.default.lookup n)) := by
  have registry := registry_of_make filed made
  have heeds : c.Heeds node options cancelAfter (c.registry.lookup n) := leaves.heeds made number
  refine ⟨chain_of_make made, ?_, ?_, ?_⟩
  · rw [registry]
    split
    · next blank =>
      have other : Registry.default ≠ config.registry := by
        intro same
        have none : Registry.default.size = 0 := same ▸ filed.size_eq_zero_iff.mpr blank
        exact absurd none (by decide)
      exact iff_of_false other (not_not_intro blank)
    · next some => exact iff_of_true rfl some
  · by_cases blank : o.history = []
    · have nothing : o.answer n = none := by
        rw [← o.lookup_ofList_history, blank]
        rfl
      rw [registry, if_pos blank] at heeds
      rw [nothing]
      constructor
      · rintro own ⟨-, known⟩
        exact Bool.false_ne_true ((own.isSome_eq heeds).trans known)
      · intro strange
        have unknown : Registry.default.lookup n = none := by
          rw [← Option.not_isSome_iff_eq_none]
          exact fun known => strange ⟨blank, known⟩
        rwa [unknown] at heeds
    · rw [registry, if_neg blank, filed.lookup] at heeds
      exact iff_of_true heeds fun unasked => blank unasked.1
  · intro blank
    rwa [registry, if_pos blank] at heeds

/-- A client for the first chain with a registry, and with nothing else. -/
def withRegistry (r : Registry) : Config :=
  { withSettings ⟨1024, 4, false, none, none, none, none⟩ with registry := r }

theorem exists_made_withRegistry (r : Registry) :
    ∃ c, make .pool (withRegistry r) troubled = .ok c ∧ c.isDeployless {} = false := by
  have ready : (withRegistry r).IsReady troubled := ⟨rfl, ⟨_, rfl⟩, ⟨_, rfl⟩, _, rfl⟩
  obtain ⟨c, made⟩ := (ready.make_isOk .pool).mpr ⟨⟨_, rfl⟩, _, rfl⟩
  refine ⟨c, made, ?_⟩
  rw [isDeployless, (isMadeFrom_of_make made).settings]
  rfl

theorem accepts_withRegistry {r : Registry}
    (made : make .pool (withRegistry r) troubled = .ok c) : c.Accepts {} [broken] := by
  have settings : c.settings = (withRegistry r).settings := (isMadeFrom_of_make made).settings
  refine ⟨?_, ?_, rfl, ?_, ?_⟩
  · rw [settings]
    exact ⟨_, rfl⟩
  · rw [settings]
    exact (by decide : Value.isWritable (.int 1024) = true)
  · rw [settings]
    exact ⟨_, Schedule.limitOfValue_int _ 4⟩
  · rw [settings]
    exact ⟨_, rfl⟩

open scoped Platform.Lenient

/-- A client with an empty registry sends its requests to the common contract. -/
theorem exists_blank_registry_not_asked :
    Registry.ofValues [] = .ok .empty ∧ Registry.empty.get (.int 1) = .ok none ∧
    ∃ c, make .pool (withRegistry .empty) troubled = .ok c ∧ c.chain = .int 1 ∧
      c.Sends troubled [broken] {} none (some (.text Registry.commonAddress)) := by
  obtain ⟨c, made, unasked⟩ := exists_made_withRegistry .empty
  have chain : c.chain = .int 1 := chain_of_make made nofun
  have leaves : LeavesToRegistry (withRegistry .empty) c {} := ⟨rfl, rfl, rfl, unasked, rfl⟩
  have heeds : c.Heeds troubled {} none (c.registry.lookup 1) :=
    leaves.heeds made (chain ▸ rfl)
  have registry : c.registry = .default := (isMadeFrom_of_make made).registry
  rw [registry] at heeds
  obtain ⟨-, -, sends⟩ := heeds
  exact ⟨rfl, rfl, c, made, chain,
    sends [broken] (List.cons_ne_nil _ _) (accepts_withRegistry made)⟩

/-- A registry to which one contract was added, for a chain that is spelled by its name. -/
theorem comesFrom_base : Registry.ComesFrom
    (Registry.empty.insert (.chain 8453) ⟨.text twos.text, .null⟩)
    ⟨[], [(8453, ⟨.text twos.text, .null⟩)]⟩ := by
  have valid : Address.ofValue (.text "0x2222222222222222222222222222222222222222") = .ok twos := by
    decide +kernel
  have number : Chain.number (.text " Base") = .ok 8453 := by decide +kernel
  have written : Registry.Write.entry ⟨.text " Base",
      .text "0x2222222222222222222222222222222222222222", .null⟩ =
        .ok (8453, ⟨.text twos.text, .null⟩) := by
    rw [Registry.Write.entry, valid, number]
    rfl
  exact (@Registry.ComesFrom.ofValues [] [] rfl).withContract written

/-- A client with such a registry finds nothing on the first chain, although the default registry
does. -/
theorem asks_own_registry_unless_blank_base :
    ∃ c, make .pool (withRegistry (Registry.empty.insert (.chain 8453) ⟨.text twos.text, .null⟩))
        troubled = .ok c ∧
      ∀ items, c.call troubled items {} none =
        .early (.raised (.chainUnsupported (.int 1) (.text "multicall3") .null)) [] := by
  obtain ⟨c, made, unasked⟩ := exists_made_withRegistry
    (Registry.empty.insert (.chain 8453) ⟨.text twos.text, .null⟩)
  have chain : c.chain = .int 1 := chain_of_make made nofun
  obtain ⟨-, -, asks, -⟩ := asks_own_registry_unless_blank troubled none comesFrom_base made
    (n := 1) (chain ▸ rfl) ⟨rfl, rfl, rfl, unasked, rfl⟩
  obtain ⟨-, refused, -⟩ := asks.mpr fun blank => List.cons_ne_nil _ _ blank.1
  rw [chain] at refused
  exact ⟨c, made, refused (by decide)⟩

end Client

end EthBatch
