import EthBatch.Proofs.Block
import EthBatch.Proofs.Client.BlockNames
import EthBatch.Proofs.Client.Destination

/-!
# The block in which a registered aggregator was created

A call that leaves its destination to the registry is refused before any request if it states a
height below the creation of the aggregator, by a number or by a quantity. At every other block the
chunks are sent to the registered address, and their requests name the block as the caller did. A
call that has another destination is refused at no block.
-/

namespace EthBatch

namespace Client

/-- A client accepts calls with their options: the budget, the limit and the deadline are read, and
what is reported of the plan and of the calls can be written. -/
structure Accepts (c : Client) (options : CallOptions) (calls : List Call) : Prop where
  budget : ∃ b, Plan.Budget.ofValue (options.within c.settings).batchSize = .ok b
  written : (options.within c.settings).batchSize.isWritable = true
  reportable : calls.all isReportable = true
  limit : ∃ limit, Schedule.limitOfValue c.style
    (options.within c.settings).maxConcurrentChunks = .ok limit
  deadline : ∃ deadline, Schedule.Deadline.ofValue c.style
    (options.within c.settings).timeout = .ok deadline

/-- A call leaves its destination to the registry, which has an address for the chain of the client,
and the block of its creation if that is known. -/
structure UsesRegistry (c : Client) (options : CallOptions) (address : Value)
    (floor : Option Int) : Prop where
  unnamed : options.address.truthy = false
  unset : c.customAddress = none
  unasked : c.isDeployless options = false
  found : c.registry.get c.chain = .ok (some ⟨address, floor.elim .null .int⟩)
  real : address ≠ .null

/-- A call has a destination without the registry: the address that is given with it, or else that
of the client, or else none because it is deployless. -/
inductive Bypasses (c : Client) (options : CallOptions) : Option Value → Prop
  | given {a : Address} (present : options.address.truthy = true)
      (valid : Address.ofValue options.address = .ok a) : Bypasses c options (some (.text a.text))
  | own {a : Address} (absent : options.address.truthy = false)
      (custom : c.customAddress = some a) : Bypasses c options (some (.text a.text))
  | nowhere (absent : options.address.truthy = false) (unset : c.customAddress = none)
      (asked : c.isDeployless options = true) : Bypasses c options none

/-- Nothing that is accepted depends on the block. -/
theorem Accepts.withBlock {c : Client} {options : CallOptions} {calls : List Call}
    (accepts : c.Accepts options calls) (block : Value) :
    c.Accepts (options.withBlock block) calls :=
  ⟨accepts.budget, accepts.written, accepts.reportable, accepts.limit, accepts.deadline⟩

variable {c : Client} {node : Node} {options : CallOptions} {address : Value} {floor : Option Int}
variable {b b' : Value} {d : Option Value} {calls : List Call} {cancelAfter : Option Nat}

theorem Bypasses.destination (h : c.Bypasses options d) (b : Value) :
    c.destination options.address (c.isDeployless options) b = .ok d := by
  apply destination_eq_ok.mpr
  cases h with
  | given present valid => exact .given present valid
  | own absent custom => exact .own absent custom
  | nowhere absent unset asked => exact .nowhere absent unset asked

theorem isCreatedAfter_floor (address : Value) (floor : Option Int) (n : Int) :
    Deployment.isCreatedAfter ⟨address, floor.elim .null .int⟩ n =
      .ok (floor.any fun k => decide (n < k)) := by
  cases floor <;> rfl

/-- What the registry says at a block depends on the height that is stated, and on nothing else. -/
theorem UsesRegistry.registered (h : c.UsesRegistry options address floor) {height : Option Int}
    (read : Block.height b = .ok height) : c.registered b =
      match height with
      | none => .ok address
      | some n =>
        if floor.any fun k => decide (n < k) then .error (c.unsupported (.int n))
        else .ok address := by
  rw [registered_of_get h.found]
  simp only [addressAt, read, Except.mapError_ok, Except.ok_bind]
  cases height with
  | none => rfl
  | some n => simp only [isCreatedAfter_floor, Except.mapError_ok, Except.ok_bind]

/-- From its creation on, and if no height is stated, it is where the registry says. -/
theorem UsesRegistry.destination (h : c.UsesRegistry options address floor) {height : Option Int}
    (read : Block.height b = .ok height)
    (above : ∀ n, height = some n → ∀ k, floor = some k → k ≤ n) :
    c.destination options.address (c.isDeployless options) b = .ok (some address) := by
  have registered : c.registered b = .ok address := by
    rw [h.registered read]
    cases height with
    | none => rfl
    | some n =>
        refine if_neg ?_
        rw [Option.any_eq_true]
        rintro ⟨k, known, below⟩
        have := above n rfl k known
        have := of_decide_eq_true below
        omega
  have given : address.given? = some address := by
    cases address with
    | null => exact absurd rfl h.real
    | _ => rfl
  rw [destination_eq_ok, ← given]
  exact .registered h.unnamed h.unset h.unasked registered

/-- Identifiers at which the same height is read lead to the same destination. -/
theorem destination_congr (same : Block.height b = Block.height b') (c : Client)
    (address : Value) (deployless : Bool) :
    c.destination address deployless b = c.destination address deployless b' := by
  simp only [Client.destination, Client.registered, same]

/-- A call without a destination is over at once. -/
theorem call_of_destination_error [Platform] {items : List CallItem} {e : Error}
    (refused : c.destination options.address (c.isDeployless options) options.block = .error e) :
    c.call node items options cancelAfter = .early (.raised e) [] := by
  have refused : c.destination (options.within c.settings).address
      (options.within c.settings).deployless.truthy (options.within c.settings).block =
        .error e := refused
  simp only [call, refused]

/-- A run sends its chunks to a destination. The request of a chunk that is sent names the block of
the options; there is one for the first chunk if it is left to the slots which are sent. -/
def Sends [Platform] (c : Client) (node : Node) (calls : List Call) (options : CallOptions)
    (cancelAfter : Option Nat) (d : Option Value) : Prop :=
  ∃ chunks r limit deadline,
    c.Started (options.within c.settings) calls chunks r limit deadline ∧ r.address = d ∧
    (∀ k q, (k, q) ∈ (c.call node (calls.map .call) options cancelAfter).requests ↔
      ∃ chunk, chunks[k]? = some chunk ∧ c.isSent node r limit chunks deadline k = true ∧
        q = c.requestTo (if c.isDeployless options then none else d) options.block chunk) ∧
    (deadline.Undecided c.style node.clock →
      ∃ q, (0, q) ∈ (c.call node (calls.map .call) options cancelAfter).requests)

/-- A call that is accepted and finds its destination is sent there. -/
theorem sends_of_destination [Platform] (nonempty : calls ≠ []) (accepts : c.Accepts options calls)
    (found : c.destination options.address (c.isDeployless options) options.block = .ok d) :
    c.Sends node calls options cancelAfter d := by
  obtain ⟨⟨budget, stated⟩, written, reportable, ⟨limit, limited⟩, deadline, dated⟩ := accepts
  have planned := plan_eq_ok nonempty stated
  have started : c.Started (options.within c.settings) calls
      (Plan.chunks SubCall.cost budget (calls.map .ofCall))
      ⟨d, c.isDeployless options || d.isNone, options.block⟩ limit deadline :=
    ⟨found, rfl, rfl, nonempty, planned, reportable, written, limited, dated⟩
  generalize Plan.chunks SubCall.cost budget (calls.map .ofCall) = chunks at started
  refine ⟨chunks, _, limit, deadline, started, rfl, ?_, ?_⟩
  · intro k q
    have recipient : (if (c.isDeployless options || d.isNone) = true then none else d) =
        if c.isDeployless options then none else d := by
      cases c.isDeployless options <;> cases d <;> rfl
    simp only [mem_requests_iff started, requestFor_eq_requestTo, recipient]
  · intro free
    have count : 0 < chunks.length := by
      rw [List.length_pos_iff]
      rintro rfl
      exact nonempty (List.length_eq_zero_iff.mp started.total.symm)
    refine ⟨_, (mem_requests_iff started).mpr ⟨chunks[0], List.getElem?_eq_getElem count, ?_, rfl⟩⟩
    have none : c.hanging node ⟨d, c.isDeployless options || d.isNone, options.block⟩ chunks 0 =
        0 := rfl
    rw [isSent, free, none, Schedule.hasSlot_zero (limit_ne_zero limited), Option.getD_none]

/-- Numbers of fewer digits than a hash has can be written. -/
theorem isWritable_of_lt {n : Nat} (h : n < 16 ^ 63) : Number.isWritable n = true := by
  have short : 16 ^ 63 < 10 ^ 76 := by decide
  exact Number.isWritable_of_lt (Nat.lt_trans h short) (by decide)

open scoped Platform.Lenient

/-- A client whose aggregator was created in the block 171. -/
def rooted : Client :=
  { terse with
    chain := .int 999
    registry := Registry.empty.insert (.chain 999) ⟨.text twos.text, .int 171⟩ }

theorem accepts_rooted {deployless : Value} :
    rooted.Accepts { deployless } [broken] :=
  ⟨⟨_, rfl⟩, (by decide : Value.isWritable (.int 1024) = true), rfl, ⟨_, rfl⟩, ⟨_, rfl⟩⟩

end Client

end EthBatch
