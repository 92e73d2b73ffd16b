import EthBatch.Proofs.Abi.Grammar.Sound
import EthBatch.Proofs.Abi.Grammar.Unique
import EthBatch.Proofs.Abi.Schema

/-!
# The shape of a schema

The type name of a schema states the tree that the schema describes, and no other: the grammar of
type names gives the tree back, so schemas of one type name have one shape. The grammar of the codec
leaves out empty tuples and sizes of zero. It gives the tree back or nothing.
-/

namespace EthBatch.Abi

namespace TypeText

/-- The codec reads the text of a tree as the tree, unless a tuple is empty or a size is zero. -/
theorem read?_print_of_isSpelled {t : TypeText} (spelled : isSpelled t = true) :
    read? (print t) = if isProper t then some t else none := by
  split
  · next proper => exact read?_print proper
  · next improper =>
    rw [Option.eq_none_iff_forall_ne_some]
    intro u read
    obtain ⟨proper, same⟩ := read?_eq_some_iff.mp read
    have derived := derives_print u (isSpelled_of_isProper u proper)
    rw [same, derives_print_iff spelled] at derived
    exact improper (derived ▸ proper)

end TypeText

namespace Schema

variable {v : Value} {t : TypeText}

/-- The type name of a schema is read as the tree that the schema describes and as no other, and
other schemas have the same name if they describe the same tree, and only then. -/
theorem name_states_shape (describes : Describes v t) (spelled : t.isSpelled = true) :
    ∃ s, typeText v = .ok s ∧
      (∀ u, TypeText.Derives s.toList u ↔ u = t) ∧
      TypeText.read? s.toList = (if t.isProper then some t else none) ∧
      ∀ w u, Describes w u → u.isSpelled = true → (typeText w = .ok s ↔ u = t) := by
  refine ⟨textOf t, typeText_of_describes t describes, ?_, ?_, ?_⟩
  · intro u
    rw [textOf, String.toList_ofList]
    exact TypeText.derives_print_iff spelled
  · rw [textOf, String.toList_ofList]
    exact TypeText.read?_print_of_isSpelled spelled
  · intro w u describes' spelled'
    rw [typeText_of_describes u describes']
    constructor
    · intro same
      have texts : u.print = t.print := String.ofList_injective (Except.ok.inj same)
      have derived := TypeText.derives_print u spelled'
      rwa [texts, TypeText.derives_print_iff spelled] at derived
    · rintro rfl
      rfl

/-- A list of pairs of tuples: amounts, and three owners. -/
def sharesSchema : Value :=
  .record [("name", .text "shares"), ("type", .text "tuple[2][]"),
    ("internalType", .text "struct Vault.Share[2][]"), ("components", .list [
      .record [("name", .text "amounts"), ("type", .text "uint256[]")],
      .record [("name", .text "owners"), ("type", .text "tuple[3]"),
        ("components", .tuple [.record [("type", .text "address")]])]])]

/-- Its shape. -/
def sharesShape : TypeText :=
  .tuple [.word "uint256".toList [.unsized], .tuple [.word "address".toList []] [.sized 3]]
    [.sized 2, .unsized]

theorem name_states_shape_shares :
    typeText sharesSchema = .ok "(uint256[],(address)[3])[2][]" ∧
      (∀ u, TypeText.Derives "(uint256[],(address)[3])[2][]".toList u ↔ u = sharesShape) ∧
      TypeText.read? "(uint256[],(address)[3])[2][]".toList = some sharesShape := by
  have describes : Describes sharesSchema sharesShape :=
    .tuple rfl rfl rfl (.cons (.word rfl (by decide)) (.cons (.tuple rfl rfl rfl
      (.cons (.word rfl (by decide)) .nil)) .nil))
  obtain ⟨s, named, derives, read, _⟩ := name_states_shape describes (by rfl)
  have text : typeText sharesSchema = .ok "(uint256[],(address)[3])[2][]" := by
    rw [typeText_of_describes _ describes]
    rfl
  obtain rfl := Except.ok.inj (named.symm.trans text)
  exact ⟨text, derives, read.trans (if_pos (by rfl))⟩

end Schema

end EthBatch.Abi
