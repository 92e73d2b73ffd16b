import EthBatch.Abi.Kind
import EthBatch.Proofs.Except

/-!
# Type names outside the grammar

A type name that follows the grammar names a type or is refused for what its words say, unless it
holds a number of too many digits. Only a name outside the grammar is unparsable, and not even all
of those: one that mentions a tuple without components has a fault of its own.
-/

namespace EthBatch.Abi

/-- Is the fault one of the text of a name, and not of what its words say? -/
def TypeFault.IsTextual (f : TypeFault) : Prop := f = .unparsable ∨ f = .longNumber

variable {f : TypeFault}

theorem Word.kind_ne_textual (textual : f.IsTextual) (w : Word) : w.kind ≠ .error f := by
  unfold kind
  rcases textual with rfl | rfl
  all_goals
    repeat' split
    all_goals simp

namespace Kind

/-- Does a text follow the grammar of type names, down to its words? -/
def FollowsGrammar (s : String) : Prop :=
  ∃ t, TypeText.read? s.toList = some t ∧ isSplit t = true

/-- The tree of a text that follows the grammar. -/
theorem followsGrammar_iff {s : String} :
    FollowsGrammar s ↔ ∃ t, (TypeText.read? s.toList).filter isSplit = some t := by
  simp only [FollowsGrammar, Option.filter_eq_some_iff]

mutual

theorem ofTree_ne_textual (textual : f.IsTextual) : ∀ t, isSplit t = true → ofTree t ≠ .error f
  | .word name ss, parts => by
      obtain ⟨w, hw⟩ := Option.isSome_iff_exists.mp parts
      rw [ofTree, hw]
      intro h
      exact w.expand.kind_ne_textual textual (Except.map_eq_error.mp h)
  | .tuple items ss, parts => by
      rw [ofTree]
      intro h
      exact ofTrees_ne_textual textual items parts (Except.map_eq_error.mp h)

theorem ofTrees_ne_textual (textual : f.IsTextual) :
    ∀ ts, areSplit ts = true → ofTrees ts ≠ .error f
  | [], _ => nofun
  | t :: ts, parts => by
      simp only [areSplit, Bool.and_eq_true] at parts
      rw [ofTrees]
      intro h
      rcases Except.bind_eq_error.mp h with h | ⟨k, _, h⟩
      · exact ofTree_ne_textual textual t parts.1 h
      · rcases Except.bind_eq_error.mp h with h | ⟨ks, _, h⟩
        · exact ofTrees_ne_textual textual ts parts.2 h
        · cases h

end

theorem ofBareWord_ne_textual (textual : f.IsTextual) (w : Word) : ofBareWord w ≠ .error f := by
  unfold ofBareWord
  split
  · rcases textual with rfl | rfl <;> simp
  · exact w.expand.kind_ne_textual textual

/-- The type of a text that follows the grammar and holds no number too long has the fault of its
words, if any. -/
theorem ofText_ne_textual (textual : f.IsTextual) {s : String} (follows : FollowsGrammar s)
    (short : hasLongNumber 0 s.toList = false) : ofText s ≠ .error f := by
  obtain ⟨t, tree⟩ := followsGrammar_iff.mp follows
  have parts : isSplit t = true := (Option.filter_eq_some_iff.mp tree).2
  rw [ofText, ofChars, tree]
  simp only [short, Bool.false_eq_true, if_false]
  match t, parts with
  | .word name [], parts =>
      obtain ⟨w, hw⟩ := Option.isSome_iff_exists.mp parts
      simp only [hw]
      exact ofBareWord_ne_textual textual w
  | .word name (s :: ss), parts =>
      dsimp only
      split
      · exact ofTree_ne_textual textual _ parts
      · rcases textual with rfl | rfl <;> simp
  | .tuple items ss, parts =>
      dsimp only
      split
      · exact ofTree_ne_textual textual _ parts
      · rcases textual with rfl | rfl <;> simp

/-- A name is unparsable if it does not follow the grammar and mentions no empty tuple. -/
theorem ofText_eq_unparsable {s : String} : ofText s = .error .unparsable ↔
    ¬ FollowsGrammar s ∧ mentionsEmptyTuple s.toList = false := by
  by_cases follows : FollowsGrammar s
  · refine iff_of_false ?_ fun h => h.1 follows
    cases long : hasLongNumber 0 s.toList with
    | false => exact ofText_ne_textual (.inl rfl) follows long
    | true =>
        obtain ⟨t, tree⟩ := followsGrammar_iff.mp follows
        simp [ofText, ofChars, tree, long]
  · have tree := Option.eq_none_iff_forall_ne_some.mpr
      (not_exists.mp fun h => follows (followsGrammar_iff.mpr h))
    cases empty : mentionsEmptyTuple s.toList <;> simp [ofText, ofChars, tree, empty, follows]

/-- A name has a number too long if it follows the grammar and holds one. -/
theorem ofText_eq_longNumber {s : String} : ofText s = .error .longNumber ↔
    FollowsGrammar s ∧ hasLongNumber 0 s.toList = true := by
  by_cases follows : FollowsGrammar s
  · cases long : hasLongNumber 0 s.toList with
    | false => simpa using ofText_ne_textual (.inr rfl) follows long
    | true =>
        obtain ⟨t, tree⟩ := followsGrammar_iff.mp follows
        simp [ofText, ofChars, tree, long, follows]
  · have tree := Option.eq_none_iff_forall_ne_some.mpr
      (not_exists.mp fun h => follows (followsGrammar_iff.mpr h))
    cases empty : mentionsEmptyTuple s.toList <;> simp [ofText, ofChars, tree, empty, follows]

/-- The fault of a list of names is that of the first one that names no type. -/
theorem ofTexts_eq_error {names : List String} : ofTexts names = .error f ↔
    ∃ before s after, names = before ++ s :: after ∧ (∀ s ∈ before, ∃ k, ofText s = .ok k) ∧
      ofText s = .error f := by
  induction names with
  | nil => simp [ofTexts]
  | cons name names ih =>
      rw [ofTexts, Except.bind_eq_error]
      constructor
      · rintro (here | ⟨k, known, h⟩)
        · exact ⟨[], name, names, rfl, nofun, here⟩
        · have rest := (Except.bind_eq_error.mp h).resolve_right (by simp)
          obtain ⟨before, s, after, rfl, all, here⟩ := ih.mp rest
          refine ⟨name :: before, s, after, rfl, ?_, here⟩
          intro s' hs'
          rcases List.mem_cons.mp hs' with rfl | hs'
          · exact ⟨k, known⟩
          · exact all s' hs'
      · rintro ⟨before, s, after, split, all, here⟩
        cases before with
        | nil =>
            obtain ⟨rfl, rfl⟩ := List.cons.inj split
            exact .inl here
        | cons first before =>
            obtain ⟨rfl, rfl⟩ := List.cons.inj split
            obtain ⟨k, known⟩ := all name List.mem_cons_self
            refine .inr ⟨k, known, Except.bind_eq_error.mpr (.inl (ih.mpr ?_))⟩
            exact ⟨before, s, after, rfl, fun s' hs' => all s' (List.mem_cons_of_mem _ hs'), here⟩

end Kind

end EthBatch.Abi
