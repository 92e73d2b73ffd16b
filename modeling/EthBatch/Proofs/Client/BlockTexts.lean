import EthBatch.Proofs.Client.BlockFloor

/-!
# Blocks that are named by a text

A text with the mark and 1 to 63 digits states the height of its block. Any other text is left to
the node: the destination of a call is the one at the latest block, and the requests carry the text
as the caller gave it. The bare mark alone is taken for a quantity although it states no height, and
a call that looks its destination up in the registry ends with it.
-/

namespace EthBatch

namespace Client

variable {c : Client} {node : Node} {items : List CallItem} {options : CallOptions}
variable {cancelAfter : Option Nat} {address : Value} {floor : Option Int} {b : Value} {f : Fault}

/-- Every request names the block of the options. -/
theorem block_of_mem_requests [Platform] {k : Nat} {q : Request}
    (mem : (k, q) ∈ (c.call node items options cancelAfter).requests) :
    q.block = options.block := by
  obtain ⟨_, _, r, _, _, chunk, _, started, _, rfl⟩ := exists_route_of_mem_requests mem
  rw [requestFor_eq_requestTo, block_requestTo]
  exact started.block

/-- A block at which no height is read has the destination of the latest block. -/
theorem destination_of_no_height (unread : Block.height b = .ok none) (c : Client)
    (address : Value) (deployless : Bool) : c.destination address deployless b =
      c.destination address deployless (.text "latest") :=
  destination_congr unread c address deployless

/-- A block whose height cannot be read ends a call that asks the registry. -/
theorem UsesRegistry.destination_of_error (h : c.UsesRegistry options address floor)
    (refused : Block.height b = .error f) :
    c.destination options.address (c.isDeployless options) b = .error (.fault f) := by
  have registered : c.registered b = .error (.fault f) := by
    rw [registered_of_get h.found, addressAt, refused]
    rfl
  simp [Client.destination, chosenAddress, h.unnamed, h.unset, h.unasked, registered, Except.map]

/-- A text states a height if and only if it is the mark with 1 to 63 digits, and then it states
that of its digits. At any other text but the bare mark a call has the destination of the latest
block, and its requests carry the text unchanged; they are sent if there is a destination. The bare
mark has no height either, but ends every call that asks the registry. -/
theorem names_left_alone_unless_bare [Platform] (s : String) :
    ((∀ digits : List Char, digits ≠ [] → digits.length < 64 → digits.all Hex.isDigit = true →
        Block.IsNumber (String.ofList ('0' :: 'x' :: digits))) ∧
      (∀ n, Block.height (.text s) = .ok (some n) ↔
        ∃ m : Nat, n = m ∧ Block.States m (.text s)) ∧
      (Block.height (.text s) = .ok none ↔ s ≠ Block.bareMark ∧ ¬ Block.IsNumber s) ∧
      ∀ f, Block.height (.text s) = .error f ↔ s = Block.bareMark ∧ f = .badValue) ∧
    (s ≠ Block.bareMark → ¬ Block.IsNumber s → ∀ c : Client,
      (∀ address deployless, c.destination address deployless (.text s) =
        c.destination address deployless (.text "latest")) ∧
      ∀ node options cancelAfter,
        (∀ items k q, (k, q) ∈ (c.call node items (options.withBlock (.text s))
          cancelAfter).requests → q.block = .text s) ∧
        ∀ calls d, calls ≠ [] → c.Accepts options calls →
          c.destination options.address (c.isDeployless options) (.text "latest") = .ok d →
          c.Sends node calls (options.withBlock (.text s)) cancelAfter d) ∧
    ∀ (c : Client) options address floor, c.UsesRegistry options address floor →
      ∀ node items cancelAfter,
        c.call node items (options.withBlock (.text Block.bareMark)) cancelAfter =
          .early (.raised (.fault .badValue)) [] := by
  refine ⟨⟨fun _ => Block.exists_states, fun _ => Block.height_text_eq_some,
    Block.height_text_eq_none, fun _ => Block.height_text_eq_error⟩, ?_, ?_⟩
  · intro other unstated c
    have unread := Block.height_text_eq_none.mpr ⟨other, unstated⟩
    refine ⟨destination_of_no_height unread c, ?_⟩
    intro node options cancelAfter
    refine ⟨fun _ _ _ => block_of_mem_requests, ?_⟩
    intro calls d nonempty accepts found
    apply sends_of_destination nonempty (accepts.withBlock (.text s))
    rw [← found]
    exact destination_of_no_height unread c options.address (c.isDeployless options)
  · intro c options address floor uses node items cancelAfter
    exact call_of_destination_error (uses.destination_of_error Block.height_bareMark)

open scoped Platform.Lenient

/-- The bare mark states no height, and is not left alone. -/
theorem exists_name_not_left_alone : ∃ s, ¬ Block.IsNumber s ∧
    Block.height (.text s) ≠ .ok none ∧
    rooted.call troubled [.call broken] { block := .text s } none =
      .early (.raised (.fault .badValue)) [] := by
  have uses : rooted.UsesRegistry {} (.text twos.text) (some 171) := ⟨rfl, rfl, rfl, rfl, nofun⟩
  refine ⟨"0x", ?_, nofun, ?_⟩
  · rintro ⟨n, states⟩
    cases Block.height_bareMark.symm.trans states.height
  · exact call_of_destination_error (uses.destination_of_error Block.height_bareMark)

/-- A text that has the mark and one digit, but also a letter that is none, is sent as it is. -/
theorem names_left_alone_unless_bare_garbled :
    "0xAg" ≠ Block.bareMark ∧ ¬ Block.IsNumber "0xAg" ∧
    rooted.destination .null false (.text "0xAg") = .ok (some (.text twos.text)) ∧
    rooted.Sends troubled [broken] { block := .text "0xAg" } none (some (.text twos.text)) ∧
    rooted.call troubled [.call broken] { block := .text Block.bareMark } none =
      .early (.raised (.fault .badValue)) [] := by
  have uses : rooted.UsesRegistry {} (.text twos.text) (some 171) := ⟨rfl, rfl, rfl, rfl, nofun⟩
  have latest := uses.destination (b := .text "latest") rfl nofun
  obtain ⟨⟨-, -, unread, -⟩, named, bare⟩ := names_left_alone_unless_bare "0xAg"
  obtain ⟨other, unstated⟩ := unread.mp rfl
  obtain ⟨same, runs⟩ := named other unstated rooted
  obtain ⟨-, sent⟩ := runs troubled {} none
  refine ⟨other, unstated, (same .null false).trans latest, ?_, ?_⟩
  · exact sent [broken] _ (List.cons_ne_nil _ _) accepts_rooted latest
  · exact bare rooted {} _ _ uses troubled [.call broken] none

end Client

end EthBatch
