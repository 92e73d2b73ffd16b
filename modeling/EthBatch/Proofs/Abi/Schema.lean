import EthBatch.Abi.Schema
import EthBatch.Proofs.Abi.Grammar
import EthBatch.Proofs.Except

/-!
# Type names of described parameters

A schema describes a tree of types: a word with suffixes stands in the `type` of a record, a tuple
is the word `tuple` with suffixes in the `type` and the descriptions of its items in the
`components`. What else the record says does not matter. The type name of a schema is the text of
the tree that it describes.
-/

namespace EthBatch.Abi

namespace Schema

/-- A value that describes a tree of types. -/
inductive Describes : Value → TypeText → Prop where
  | word {fs : Fields} {name : List Char} {ss : List Suffix}
      (typed : Fields.get? fs "type" =
        some (.text (String.ofList (name ++ Suffix.printAll ss))))
      (plain : ¬ tupleMark <+: name) : Describes (.record fs) (.word name ss)
  | tuple {fs : Fields} {ss : List Suffix} {v : Value} {items : List Value} {ts : List TypeText}
      (typed : Fields.get? fs "type" =
        some (.text (String.ofList (tupleMark ++ Suffix.printAll ss))))
      (components : Fields.get? fs "components" = some v) (listed : v.sequence? = some items)
      (described : List.Forall₂ Describes items ts) : Describes (.record fs) (.tuple ts ss)

/-- The text of a tree. -/
def textOf (t : TypeText) : String := String.ofList t.print

/-! ## Texts of tuples -/

theorem intercalate_textOf (ts : List TypeText) :
    String.intercalate "," (ts.map textOf) = String.ofList (TypeText.printItems ts) := by
  induction ts with
  | nil => simp [TypeText.printItems]
  | cons t ts ih =>
      cases ts with
      | nil => simp [TypeText.printItems, textOf]
      | cons u ts =>
          rw [List.map_cons, List.map_cons, String.intercalate_cons_cons, ← List.map_cons, ih,
            TypeText.printItems_cons_cons]
          apply String.toList_inj.mp
          simp [textOf]

theorem tupleText_textOf (ts : List TypeText) (ss : List Suffix) :
    tupleText (ts.map textOf) (Suffix.printAll ss) = textOf (.tuple ts ss) := by
  apply String.toList_inj.mp
  simp [tupleText, intercalate_textOf, textOf, TypeText.print]

/-! ## The mark of a tuple -/

theorem tupleSuffix?_mark (suffix : List Char) :
    tupleSuffix? (String.ofList (tupleMark ++ suffix)) = some suffix := by
  simp [tupleSuffix?, tupleMark]

/-- Suffixes do not complete a word to one that marks a tuple. -/
theorem tupleSuffix?_word {name : List Char} (plain : ¬ tupleMark <+: name) (ss : List Suffix) :
    tupleSuffix? (String.ofList (name ++ Suffix.printAll ss)) = none := by
  have unmarked : ¬ tupleMark <+: name ++ Suffix.printAll ss := by
    rintro ⟨rest, split⟩
    rcases List.append_eq_append_iff.mp split with ⟨more, rfl, _⟩ | ⟨missing, mark, tail⟩
    · exact plain (List.prefix_append tupleMark more)
    · cases missing with
      | nil => exact plain (by rw [mark, List.append_nil])
      | cons c missing =>
          -- what completes the mark would have to begin with a bracket
          have first := congrArg List.head? tail
          rw [← List.append_nil (Suffix.printAll ss), TypeText.head?_printAll] at first
          have bracket : c = '[' := by
            split at first
            · cases first
            · exact (Option.some.inj first).symm
          have inside : '[' ∈ tupleMark := by simp [mark, bracket]
          exact absurd inside (by decide)
  rw [tupleSuffix?, String.toList_ofList, if_neg]
  rwa [List.isPrefixOf_iff_prefix]

/-! ## Type names -/

theorem componentTexts_eq (fs : Fields) : componentTexts fs =
    match Fields.get? fs "components" with
    | some v => itemTexts v
    | none => .ok [] := by
  induction fs with
  | nil => rw [componentTexts, Fields.get?, List.lookup_nil]
  | cons f fs ih =>
      obtain ⟨k, v⟩ := f
      rw [componentTexts]
      by_cases here : k = "components"
      · simp [Fields.get?, here]
      · have miss : ("components" == k) = false := by simpa using Ne.symm here
        rw [if_neg here, ih, Fields.get?, Fields.get?, List.lookup_cons, miss]

theorem itemTexts_of_sequence {v : Value} {items : List Value} (h : v.sequence? = some items) :
    itemTexts v = typeTexts items := by
  cases v with
  | list vs | tuple vs =>
      obtain rfl := Option.some.inj h
      rw [itemTexts]
  | _ => cases h

mutual

/-- The type name of a schema is the text of the tree that it describes. -/
theorem typeText_of_describes : ∀ (t : TypeText) {v : Value}, Describes v t →
    typeText v = .ok (textOf t)
  | .word name ss, v, h => by
      cases h with
      | word typed plain =>
          simp only [typeText, typeField, typed, Except.ok_bind, tupleSuffix?_word plain]
          rfl
  | .tuple ts ss, v, h => by
      cases h with
      | tuple typed components listed described =>
          simp only [typeText, typeField, typed, Except.ok_bind, tupleSuffix?_mark,
            componentTexts_eq, components, itemTexts_of_sequence listed,
            typeTexts_of_describes ts described, tupleText_textOf]

theorem typeTexts_of_describes : ∀ (ts : List TypeText) {vs : List Value},
    List.Forall₂ Describes vs ts → typeTexts vs = .ok (ts.map textOf)
  | [], vs, h => by
      cases h
      rw [typeTexts]
      rfl
  | t :: ts, vs, h => by
      cases h with
      | cons first rest =>
          rw [typeTexts, typeText_of_describes t first, Except.ok_bind,
            typeTexts_of_describes ts rest, Except.ok_bind]
          rfl

end

end Schema

end EthBatch.Abi
