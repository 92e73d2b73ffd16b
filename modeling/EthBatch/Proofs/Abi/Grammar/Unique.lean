import EthBatch.Proofs.Abi.Grammar

/-!
# The grammar of type names is unambiguous

A type name derives from one tree only, if it derives from any. The grammar is that of interfaces:
a tuple may be without items, and a size may be zero. Two names are compared from their first
character on, with anything behind them that goes on with neither a word nor a suffix: a word ends
at the first character that is no letter or digit, a suffix at its bracket, and the items of a tuple
at the parenthesis that closes it, which no item begins with.
-/

namespace EthBatch

namespace Number

theorem digits_inj {m n : Nat} (h : digits m = digits n) : m = n := by
  have read := natOfDigits?_digits m
  rw [h, natOfDigits?_digits] at read
  exact (Option.some.inj read).symm

end Number

namespace Abi

/-- Runs that end where their texts go on with something else are the same in equal texts. -/
theorem span_append_inj {p : Char → Bool} {cs ds more rest : List Char}
    (all : ∀ c ∈ cs, p c = true) (ends : ∀ c, more.head? = some c → p c = false)
    (all' : ∀ c ∈ ds, p c = true) (ends' : ∀ c, rest.head? = some c → p c = false)
    (h : cs ++ more = ds ++ rest) : cs = ds ∧ more = rest := by
  obtain ⟨run, behind⟩ := span_append more all ends
  obtain ⟨run', behind'⟩ := span_append rest all' ends'
  rw [h, run'] at run
  rw [h, behind'] at behind
  exact ⟨run.symm, behind.symm⟩

/-! ## Suffixes -/

namespace Suffix

variable {s s' : Suffix} {ss ss' : List Suffix} {rest rest' : List Char}

/-- What stands between the brackets. -/
def body : Suffix → List Char
  | .unsized => []
  | .sized n => Number.digits n

theorem print_append (s : Suffix) (rest : List Char) :
    s.print ++ rest = '[' :: (s.body ++ ']' :: rest) := by
  cases s <;> simp [print, body]

theorem isDigit_of_mem_body {c : Char} (mem : c ∈ s.body) : c.isDigit = true := by
  cases s with
  | unsized => cases mem
  | sized n => exact Number.isDigit_of_mem_digits mem

theorem body_inj (h : s.body = s'.body) : s = s' := by
  cases s with
  | unsized =>
      cases s' with
      | unsized => rfl
      | sized n => exact absurd h.symm (Number.digits_ne_nil n)
  | sized m =>
      cases s' with
      | unsized => exact absurd h (Number.digits_ne_nil m)
      | sized n => rw [Number.digits_inj h]

/-- A suffix ends at its bracket. -/
theorem print_append_inj (h : s.print ++ rest = s'.print ++ rest') : s = s' ∧ rest = rest' := by
  rw [print_append, print_append] at h
  have closing (rest : List Char) : ∀ c, (']' :: rest).head? = some c → c.isDigit = false := by
    rintro c first
    obtain rfl := Option.some.inj first
    decide
  have inside := span_append_inj (fun _ => isDigit_of_mem_body) (closing rest)
    (fun _ => isDigit_of_mem_body) (closing rest') (List.cons.inj h).2
  exact ⟨body_inj inside.1, (List.cons.inj inside.2).2⟩

theorem printAll_cons_append_ne (ends : rest.head? ≠ some '[') :
    printAll (s :: ss) ++ rest' ≠ rest := by
  rintro rfl
  apply ends
  rw [TypeText.head?_printAll]
  rfl

/-- A row of suffixes ends where no bracket follows. -/
theorem printAll_append_inj (ends : rest.head? ≠ some '[') (ends' : rest'.head? ≠ some '[')
    (h : printAll ss ++ rest = printAll ss' ++ rest') : ss = ss' ∧ rest = rest' := by
  induction ss generalizing ss' with
  | nil =>
      cases ss' with
      | nil => exact ⟨rfl, h⟩
      | cons s' ss' => exact absurd h.symm (printAll_cons_append_ne ends)
  | cons s ss ih =>
      cases ss' with
      | nil => exact absurd h (printAll_cons_append_ne ends')
      | cons s' ss' =>
          rw [printAll_cons, printAll_cons, List.append_assoc, List.append_assoc] at h
          obtain ⟨rfl, more⟩ := print_append_inj h
          obtain ⟨rfl, same⟩ := ih more
          exact ⟨rfl, same⟩

end Suffix

/-! ## Trees -/

namespace TypeText

mutual

/-- Are the words of the tree made of letters and digits, and not empty? -/
def isSpelled : TypeText → Bool
  | .word name _ => !name.isEmpty && name.all isWordChar
  | .tuple items _ => areSpelled items

def areSpelled : List TypeText → Bool
  | [] => true
  | t :: ts => isSpelled t && areSpelled ts

end

mutual

theorem isSpelled_of_isProper : ∀ t : TypeText, isProper t = true → isSpelled t = true
  | .word name ss, h => by
      simp only [isProper, Bool.and_eq_true] at h
      simp only [isSpelled, Bool.and_eq_true]
      exact h.1
  | .tuple items ss, h => by
      simp only [isProper, Bool.and_eq_true] at h
      exact areSpelled_of_areProper items h.1.2

theorem areSpelled_of_areProper : ∀ ts : List TypeText, areProper ts = true → areSpelled ts = true
  | [], _ => rfl
  | t :: ts, h => by
      simp only [areProper, Bool.and_eq_true] at h
      rw [areSpelled, isSpelled_of_isProper t h.1, areSpelled_of_areProper ts h.2]
      rfl

end

/-- The texts of further items, each behind a comma. -/
def printMore (ts : List TypeText) : List Char := ts.flatMap fun t => ',' :: print t

theorem printItems_cons (t : TypeText) (ts : List TypeText) :
    printItems (t :: ts) = print t ++ printMore ts := by
  induction ts generalizing t with
  | nil => simp [printItems, printMore]
  | cons u ts ih =>
      rw [printItems_cons_cons, ih]
      rfl

theorem printMore_cons (t : TypeText) (ts : List TypeText) :
    printMore (t :: ts) = ',' :: printItems (t :: ts) := by
  rw [printItems_cons]
  rfl

variable {name : List Char} {ss : List Suffix} {rest rest' : List Char}

theorem isSpelled_word : isSpelled (.word name ss) = true ↔
    name ≠ [] ∧ ∀ c ∈ name, isWordChar c = true := by
  simp [isSpelled]

theorem Ends.printMore (ts : List TypeText) (rest : List Char) :
    Ends (printMore ts ++ ')' :: rest) := by
  cases ts with
  | nil => exact Ends.close rest
  | cons t ts => exact Ends.comma _

/-- A type begins with a parenthesis or with a letter or digit. -/
theorem exists_print_append {t : TypeText} (spelled : isSpelled t = true) (rest : List Char) :
    ∃ c cs, print t ++ rest = c :: cs ∧ (c = '(' ∨ isWordChar c = true) := by
  cases t with
  | word name ss =>
      obtain ⟨named, letters⟩ := isSpelled_word.mp spelled
      obtain ⟨c, cs, rfl⟩ := List.exists_cons_of_ne_nil named
      exact ⟨c, _, by rw [print, List.cons_append, List.cons_append],
        .inr (letters c List.mem_cons_self)⟩
  | tuple items ss => exact ⟨'(', _, by rw [print, List.cons_append, List.cons_append], .inl rfl⟩

/-- A word and a tuple do not begin alike. -/
theorem print_word_append_ne_tuple {items : List TypeText} {ss' : List Suffix}
    (spelled : isSpelled (.word name ss) = true) :
    print (.word name ss) ++ rest ≠ print (.tuple items ss') ++ rest' := by
  obtain ⟨named, letters⟩ := isSpelled_word.mp spelled
  obtain ⟨c, cs, rfl⟩ := List.exists_cons_of_ne_nil named
  rw [print, print, List.cons_append, List.cons_append, List.cons_append]
  intro h
  obtain rfl := (List.cons.inj h).1
  exact absurd (letters _ List.mem_cons_self) (by decide)

/-- No item begins with the parenthesis that closes a tuple. -/
theorem printItems_append_ne_close {t : TypeText} {ts : List TypeText}
    (spelled : areSpelled (t :: ts) = true) : printItems (t :: ts) ++ rest ≠ ')' :: rest' := by
  simp only [areSpelled, Bool.and_eq_true] at spelled
  obtain ⟨c, cs, first, start⟩ := exists_print_append spelled.1 (printMore ts ++ rest)
  rw [printItems_cons, List.append_assoc, first]
  intro h
  obtain rfl := (List.cons.inj h).1
  exact absurd start (by decide)

/-- Items are compared with a comma in front of the first one, too. -/
theorem printMore_eq_of_printItems_eq {ts us : List TypeText} (spelled : areSpelled ts = true)
    (spelled' : areSpelled us = true)
    (h : printItems ts ++ ')' :: rest = printItems us ++ ')' :: rest') :
    printMore ts ++ ')' :: rest = printMore us ++ ')' :: rest' := by
  cases ts with
  | nil =>
      cases us with
      | nil => exact h
      | cons u us => exact absurd h.symm (printItems_append_ne_close spelled')
  | cons t ts =>
      cases us with
      | nil => exact absurd h (printItems_append_ne_close spelled)
      | cons u us =>
          rw [printMore_cons, printMore_cons, List.cons_append, List.cons_append, h]

-- The induction takes both trees apart in step. What stands behind the texts is carried along: for
-- an item it begins with a comma or a parenthesis, so that the text of the item ends there.
mutual

/-- Trees of texts that begin alike are the same, and so is what stands behind their texts. -/
theorem print_append_inj : ∀ (t u : TypeText) {rest rest' : List Char}, isSpelled t = true →
    isSpelled u = true → Ends rest → Ends rest' → print t ++ rest = print u ++ rest' →
    t = u ∧ rest = rest'
  | .word name ss, .word name' ss', rest, rest', spelled, spelled', ends, ends', h => by
      rw [print, print, List.append_assoc, List.append_assoc] at h
      obtain ⟨rfl, behind⟩ := span_append_inj (isSpelled_word.mp spelled).2 (ends.suffixes ss)
        (isSpelled_word.mp spelled').2 (ends'.suffixes ss') h
      obtain ⟨rfl, same⟩ := Suffix.printAll_append_inj ends.head?_ne ends'.head?_ne behind
      exact ⟨rfl, same⟩
  | .word name ss, .tuple items ss', rest, rest', spelled, _, _, _, h =>
      absurd h (print_word_append_ne_tuple spelled)
  | .tuple items ss, .word name ss', rest, rest', _, spelled', _, _, h =>
      absurd h.symm (print_word_append_ne_tuple spelled')
  | .tuple items ss, .tuple items' ss', rest, rest', spelled, spelled', ends, ends', h => by
      simp only [print, List.cons_append, List.append_assoc, List.cons.injEq, true_and] at h
      obtain ⟨rfl, behind⟩ := printMore_append_inj items items' spelled spelled'
        (printMore_eq_of_printItems_eq spelled spelled' h)
      obtain ⟨rfl, same⟩ := Suffix.printAll_append_inj ends.head?_ne ends'.head?_ne behind
      exact ⟨rfl, same⟩

/-- Items behind commas are the same up to where their tuple closes. -/
theorem printMore_append_inj : ∀ (ts us : List TypeText) {rest rest' : List Char},
    areSpelled ts = true → areSpelled us = true →
    printMore ts ++ ')' :: rest = printMore us ++ ')' :: rest' → ts = us ∧ rest = rest'
  | [], [], rest, rest', _, _, h => ⟨rfl, (List.cons.inj h).2⟩
  | [], u :: us, rest, rest', _, _, h => absurd (List.cons.inj h).1 (by decide)
  | t :: ts, [], rest, rest', _, _, h => absurd (List.cons.inj h).1 (by decide)
  | t :: ts, u :: us, rest, rest', spelled, spelled', h => by
      simp only [areSpelled, Bool.and_eq_true] at spelled spelled'
      rw [printMore_cons, printMore_cons, printItems_cons, printItems_cons, List.cons_append,
        List.cons_append, List.append_assoc, List.append_assoc] at h
      obtain ⟨rfl, more⟩ := print_append_inj t u spelled.1 spelled'.1 (.printMore ts rest)
        (.printMore us rest') (List.cons.inj h).2
      obtain ⟨rfl, same⟩ := printMore_append_inj ts us spelled.2 spelled'.2 more
      exact ⟨rfl, same⟩

end

/-! ## Derivations -/

/-- The grammar of type names: a type is a word of letters and digits, or a list of types in
parentheses with commas between them, and it has any number of suffixes behind it. -/
inductive Derives : List Char → TypeText → Prop where
  | word {name : List Char} (named : name ≠ []) (letters : ∀ c ∈ name, isWordChar c = true)
      (ss : List Suffix) : Derives (name ++ Suffix.printAll ss) (.word name ss)
  | tuple {texts : List (List Char)} {ts : List TypeText} (items : List.Forall₂ Derives texts ts)
      (ss : List Suffix) :
      Derives ('(' :: [','].intercalate texts ++ ')' :: Suffix.printAll ss) (.tuple ts ss)

theorem printItems_eq_intercalate (ts : List TypeText) :
    printItems ts = [','].intercalate (ts.map print) := by
  induction ts with
  | nil => rfl
  | cons t ts ih =>
      cases ts with
      | nil => simp [printItems]
      | cons u ts =>
          rw [printItems_cons_cons, ih]
          simp only [List.map_cons, List.intercalate_cons_cons, List.append_assoc,
            List.singleton_append]

mutual

/-- A tree whose words are spelled has a derivation. -/
theorem derives_print : ∀ t : TypeText, isSpelled t = true → Derives (print t) t
  | .word name ss, spelled => by
      obtain ⟨named, letters⟩ := isSpelled_word.mp spelled
      exact .word named letters ss
  | .tuple items ss, spelled => by
      rw [print, printItems_eq_intercalate]
      exact .tuple (derives_map_print items spelled) ss

theorem derives_map_print : ∀ ts : List TypeText, areSpelled ts = true →
    List.Forall₂ Derives (ts.map print) ts
  | [], _ => .nil
  | t :: ts, spelled => by
      simp only [areSpelled, Bool.and_eq_true] at spelled
      exact .cons (derives_print t spelled.1) (derives_map_print ts spelled.2)

end

mutual

/-- What derives from a tree is its text. -/
theorem eq_print_of_derives : ∀ (t : TypeText) {cs : List Char}, Derives cs t →
    isSpelled t = true ∧ cs = print t
  | .word name ss, _, .word named letters _ => ⟨isSpelled_word.mpr ⟨named, letters⟩, rfl⟩
  | .tuple items ss, _, .tuple derived _ => by
      obtain ⟨spelled, texts⟩ := eq_map_print_of_derives items derived
      exact ⟨spelled, by rw [print, printItems_eq_intercalate, texts]⟩

theorem eq_map_print_of_derives : ∀ (ts : List TypeText) {texts : List (List Char)},
    List.Forall₂ Derives texts ts → areSpelled ts = true ∧ texts = ts.map print
  | [], _, .nil => ⟨rfl, rfl⟩
  | t :: ts, _, .cons first others => by
      obtain ⟨here, rfl⟩ := eq_print_of_derives t first
      obtain ⟨behind, rfl⟩ := eq_map_print_of_derives ts others
      exact ⟨by rw [areSpelled, here, behind]; rfl, rfl⟩

end

/-- The text of a tree derives from no other tree. -/
theorem derives_print_iff {t u : TypeText} (spelled : isSpelled t = true) :
    Derives (print t) u ↔ u = t := by
  constructor
  · intro derived
    obtain ⟨spelled', same⟩ := eq_print_of_derives u derived
    have whole : print u ++ [] = print t ++ [] := by rw [same]
    exact (print_append_inj u t spelled' spelled .nil .nil whole).1
  · rintro rfl
    exact derives_print u spelled

end TypeText

end Abi

end EthBatch
