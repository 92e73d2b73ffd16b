import EthBatch.Proofs.Chain
import EthBatch.Proofs.Except
import EthBatch.Registry

/-!
# Histories of registries

A registry is made of a mapping, or derived from one that was made before by filing one more entry.
Its origin is the mapping at the root of its derivations and the entries filed on the way to it, and
its answers depend on nothing else. A chain may be named in any spelling that is not too long for a
number; digits that are too many are refused by every operation.
-/

namespace EthBatch

namespace Registry

variable {entries : List (Key × Deployment)} {key : Key} {d : Deployment} {r : Registry}

/-! ## Entries -/

/-- What the entries of a registry are filed under. -/
def keys (r : Registry) : List Key := r.entries.map Prod.fst

theorem keys_setEntry (entries : List (Key × Deployment)) (key : Key) (d : Deployment) :
    (setEntry entries key d).map Prod.fst =
      if key ∈ entries.map Prod.fst then entries.map Prod.fst
      else entries.map Prod.fst ++ [key] := by
  induction entries with
  | nil => rfl
  | cons e entries ih =>
      obtain ⟨k, old⟩ := e
      by_cases here : k = key
      · simp [setEntry, here]
      · by_cases later : key ∈ entries.map Prod.fst
        · simp [setEntry, here, Ne.symm here, ih, later]
        · simp [setEntry, here, Ne.symm here, ih, later]

theorem nodup_keys_insert (h : r.keys.Nodup) : (r.insert key d).keys.Nodup := by
  rw [keys, insert, keys_setEntry]
  split
  · exact h
  · next fresh =>
    exact h.append (List.nodup_singleton key) (List.disjoint_singleton.mpr fresh)

theorem toFinset_keys_insert :
    (r.insert key d).keys.toFinset = Insert.insert key r.keys.toFinset := by
  rw [keys, insert, keys_setEntry, keys]
  split
  · next old => exact (Finset.insert_eq_self.mpr (List.mem_toFinset.mpr old)).symm
  · rw [List.toFinset_append]
    ext k
    simp

theorem ofList_concat (entries : List (Key × Deployment)) (e : Key × Deployment) :
    ofList (entries ++ [e]) = (ofList entries).insert e.1 e.2 := by
  simp only [ofList, List.foldl_append, List.foldl_cons, List.foldl_nil]

/-- Of the entries for one key the last one counts. -/
theorem lookup_ofList (entries : List (Key × Deployment)) (key : Key) :
    (ofList entries).entries.lookup key = entries.reverse.lookup key := by
  induction entries using List.reverseRecOn with
  | nil => rfl
  | append_singleton entries e ih =>
      rw [ofList_concat, insert, List.reverse_append, List.reverse_singleton, List.singleton_append]
      by_cases here : key = e.1
      · rw [here, lookup_setEntry_self, List.lookup_cons_self]
      · rw [lookup_setEntry_of_ne _ _ here, ih, List.lookup_cons, beq_false_of_ne here]

/-- There are as many entries as there are different keys. -/
theorem size_ofList (entries : List (Key × Deployment)) :
    (ofList entries).size = (entries.map Prod.fst).toFinset.card := by
  have facts : (ofList entries).keys.Nodup ∧
      (ofList entries).keys.toFinset = (entries.map Prod.fst).toFinset := by
    induction entries using List.reverseRecOn with
    | nil => exact ⟨List.nodup_nil, rfl⟩
    | append_singleton entries e ih =>
        rw [ofList_concat]
        refine ⟨nodup_keys_insert ih.1, ?_⟩
        rw [toFinset_keys_insert, ih.2, List.map_append, List.toFinset_append]
        ext k
        simp
  rw [← facts.2, List.toFinset_card_of_nodup facts.1, keys, List.length_map, size]

/-! ## Origins -/

/-- An entry to be filed, as it is given. -/
structure Write where
  chain : Value
  address : Value
  created : Value

/-- The number of the chain, and the contract with its address in the letter case of the
checksum. -/
def Write.entry (w : Write) : Except Fault (Int × Deployment) := do
  let address ← Address.ofValue w.address
  let chain ← Chain.number w.chain
  .ok (chain, ⟨.text address.text, w.created⟩)

theorem withContract_eq (r : Registry) (w : Write) :
    r.withContract w.chain w.address w.created =
      w.entry.map fun e => r.insert (.chain e.1) e.2 := by
  rw [withContract, Write.entry, Except.map_bind]
  congr 1
  funext address
  rw [Except.map_bind]
  rfl

/-- The entries of a mapping by their keys. -/
def keyed (entries : List (Value × Deployment)) : Except Fault (List (Key × Deployment)) :=
  entries.mapM fun e => (Key.ofValue e.1).map fun k => (k, e.2)

/-- Where a registry comes from: the mapping it started with, and what was filed since. -/
structure Origin where
  start : List (Key × Deployment)
  writes : List (Int × Deployment)

namespace Origin

/-- All entries in the order in which they were filed. -/
def history (o : Origin) : List (Key × Deployment) :=
  o.start ++ o.writes.map fun e => (.chain e.1, e.2)

/-- The origin after one more entry was filed. -/
def write (o : Origin) (e : Int × Deployment) : Origin := { o with writes := o.writes ++ [e] }

/-- What was filed last for a chain, or else what the mapping has for it. -/
def answer (o : Origin) (n : Int) : Option Deployment :=
  (o.writes.reverse.lookup n).or (o.start.reverse.lookup (.chain n))

theorem ofList_history_write (o : Origin) (e : Int × Deployment) :
    ofList (o.write e).history = (ofList o.history).insert (.chain e.1) e.2 := by
  have filed : (o.write e).history = o.history ++ [(.chain e.1, e.2)] := by
    rw [history, history, write, List.map_append, List.append_assoc]
    rfl
  rw [filed, ofList_concat]

theorem lookup_ofList_history (o : Origin) (n : Int) :
    (ofList o.history).lookup n = o.answer n := by
  have filed (writes : List (Int × Deployment)) :
      (writes.map fun e => (Key.chain e.1, e.2)).lookup (.chain n) = writes.lookup n := by
    induction writes with
    | nil => rfl
    | cons e writes ih =>
        have same : (Key.chain n == Key.chain e.1) = (n == e.1) := by
          by_cases here : n = e.1
          · simp [here]
          · rw [beq_false_of_ne here, beq_false_of_ne (fun h => here (Key.chain.inj h))]
        rw [List.map_cons, List.lookup_cons, List.lookup_cons, ih, same]
  rw [lookup, lookup_ofList, history, List.reverse_append, List.lookup_append, ← List.map_reverse,
    filed, answer]

end Origin

/-! ## Histories -/

/-- Something that is done to have another registry. -/
inductive Move where
  /-- A registry is made of a mapping. -/
  | start (entries : List (Value × Deployment))
  /-- An entry is filed with the registry at a place among those made so far. -/
  | derive (place : Nat) (w : Write)

/-- The registry that a move makes, unless it fails. -/
def Move.make (made : List Registry) : Move → Option Registry
  | .start entries => (ofValues entries).toOption
  | .derive place w => made[place]?.bind fun r =>
      (r.withContract w.chain w.address w.created).toOption

/-- The registries after a move. -/
def step (made : List Registry) (move : Move) : List Registry := made ++ (move.make made).toList

/-- The registries that moves make, in the order in which they are made. -/
def play (moves : List Move) : List Registry := moves.foldl step []

/-- The origin of the registry that a move makes, given those of the earlier ones. -/
def Move.origin (known : List Origin) : Move → Option Origin
  | .start entries => (keyed entries).toOption.map fun es => ⟨es, []⟩
  | .derive place w => known[place]?.bind fun o =>
      w.entry.toOption.map o.write

/-- The origins of the registries that moves make. -/
def origins (moves : List Move) : List Origin :=
  moves.foldl (fun known move => known ++ (move.origin known).toList) []

/-- A move makes the registry of its origin. -/
theorem Move.make_eq (known : List Origin) (move : Move) :
    move.make (known.map fun o => ofList o.history) =
      (move.origin known).map fun o => ofList o.history := by
  cases move with
  | start entries =>
      have made : ofValues entries = (keyed entries).map ofList := rfl
      rw [Move.make, Move.origin, made]
      cases keyed entries with
      | error f => rfl
      | ok es => simp [Except.map, Except.toOption, Origin.history]
  | derive place w =>
      rw [Move.make, Move.origin, List.getElem?_map]
      cases known[place]? with
      | none => rfl
      | some o =>
          rw [Option.map_some, Option.bind_some, Option.bind_some, withContract_eq]
          cases w.entry with
          | error f => rfl
          | ok e => exact congrArg some (o.ofList_history_write e).symm

/-- A registry is that of its origin, whatever else is made beside it. -/
theorem play_eq (moves : List Move) :
    play moves = (origins moves).map fun o => ofList o.history := by
  induction moves using List.reverseRecOn with
  | nil => rfl
  | append_singleton moves move ih =>
      rw [play, origins, List.foldl_append, List.foldl_append]
      change step (play moves) move = (origins moves ++ (move.origin (origins moves)).toList).map _
      rw [ih, step, Move.make_eq, List.map_append, Option.toList_map]

/-- No move changes what is there. -/
theorem prefix_step (made : List Registry) (move : Move) : made <+: step made move :=
  List.prefix_append ..

theorem prefix_play (moves more : List Move) : play moves <+: play (moves ++ more) := by
  rw [play, play, List.foldl_append]
  generalize moves.foldl step [] = made
  induction more generalizing made with
  | nil => exact List.prefix_rfl
  | cons move more ih => exact (prefix_step made move).trans (ih _)

/-! ## Answers -/

/-- What a registry says, as its origin has it. A chain may be named in any spelling, unless it has
more digits than are read as a number. -/
structure Answers (r : Registry) (o : Origin) : Prop where
  size : r.size = (o.history.map Prod.fst).toFinset.card
  get : ∀ n v, Chain.Spells n v → ¬ Chain.IsOverlong v → r.get v = .ok (o.answer n)
  contains : ∀ n v, Chain.Spells n v → ¬ Chain.IsOverlong v →
    r.contains v = .ok (o.answer n).isSome
  derives : ∀ n v w, Chain.Spells n v → Chain.Spells n w → ¬ Chain.IsOverlong v →
    ¬ Chain.IsOverlong w → ∀ address created,
      r.withContract v address created = r.withContract w address created
  refuses : ∀ n v, Chain.Spells n v → Chain.IsOverlong v →
    r.get v = .error .badValue ∧ r.contains v = .error .badValue ∧
      ∀ address created, ∃ f, r.withContract v address created = .error f

theorem withContract_congr {v w : Value} (same : Chain.number v = Chain.number w) (r : Registry)
    (address created : Value) :
    r.withContract v address created = r.withContract w address created := by
  rw [withContract, withContract, same]

theorem answers_ofList (o : Origin) : Answers (ofList o.history) o where
  size := size_ofList o.history
  get n v spelled short := by
    rw [get, spelled.number_eq short, ← o.lookup_ofList_history]
    rfl
  contains n v spelled short := by
    rw [contains, get, spelled.number_eq short, ← o.lookup_ofList_history]
    rfl
  derives n v w spelled spelled' short short' := by
    apply withContract_congr
    rw [spelled.number_eq short, spelled'.number_eq short']
  refuses n v spelled long := by
    have refused := spelled.number_eq_error long
    refine ⟨by rw [get, refused]; rfl, by rw [contains, get, refused]; rfl, ?_⟩
    intro address created
    rw [withContract, refused]
    cases Address.ofValue address with
    | error f => exact ⟨f, rfl⟩
    | ok a => exact ⟨.badValue, rfl⟩

/-- Whatever registries are made and derived from each other, each of them answers from the entries
on its own path, the last one for a chain first, and goes on to do so whatever is done later and
whether or not it fails. -/
theorem answers_from_own_path (moves : List Move) :
    List.Forall₂ Answers (play moves) (origins moves) ∧
    ∀ more, play moves <+: play (moves ++ more) := by
  refine ⟨?_, prefix_play moves⟩
  rw [play_eq, List.forall₂_map_left_iff, List.forall₂_same]
  exact fun o _ => answers_ofList o

/-- An entry that is filed does not show in the registry it is filed with. -/
example : (play [.start [], .derive 0 ⟨.text " ETH ", .text commonAddress, .null⟩]).map size =
    [0, 1] := by
  decide +kernel

/-- The number one behind so many zeros that it is not read. -/
def longOne : Value := .text (String.ofList (List.replicate 4300 '0' ++ ['1']))

/-- A chain that is found by its number is refused under its digits when they are too many. -/
theorem exists_spelling_refused : ∃ r d, play [.start [(.int 1, d)]] = [r] ∧
    Chain.Spells 1 longOne ∧ r.get (.int 1) = .ok (some d) ∧ r.get longOne = .error .badValue := by
  have value : Text.natOfDigits? (List.replicate 4300 '0' ++ ['1']) = some 1 :=
    Text.natOfDigits?_zeros_append (fun _ mem => List.eq_of_mem_replicate mem) _
  have padded : Text.Pads (List.replicate 4300 '0' ++ ['1'])
      (String.ofList (List.replicate 4300 '0' ++ ['1'])).toList :=
    ⟨[], [], by rw [String.toList_ofList, List.nil_append, List.append_nil],
      List.forall_mem_nil _, List.forall_mem_nil _⟩
  have spelled : Chain.Spells 1 longOne :=
    .ofDigits (List.append_ne_nil_of_right_ne_nil _ (List.cons_ne_nil _ _)) value padded
  have long : Chain.IsOverlong longOne := by
    rw [longOne, Chain.IsOverlong, Chain.trim_digits value padded, List.length_append,
      List.length_replicate]
    decide
  refine ⟨ofList [(.chain 1, ⟨.text commonAddress, .null⟩)], ⟨.text commonAddress, .null⟩, rfl,
    spelled, rfl, ?_⟩
  rw [get, spelled.number_eq_error long]
  rfl

/-! ## The origin of one registry -/

/-- A registry is among those that some moves make, with an origin. -/
def ComesFrom (r : Registry) (o : Origin) : Prop :=
  ∃ (moves : List Move) (i : Nat), (play moves)[i]? = some r ∧ (origins moves)[i]? = some o

variable {o : Origin}

theorem ComesFrom.eq_ofList (h : r.ComesFrom o) : r = ofList o.history := by
  obtain ⟨moves, i, made, known⟩ := h
  rw [play_eq, List.getElem?_map, known] at made
  exact (Option.some.inj made).symm

/-- What is found in a registry is the answer of its origin. -/
theorem ComesFrom.lookup (h : r.ComesFrom o) (n : Int) : r.lookup n = o.answer n := by
  rw [h.eq_ofList, o.lookup_ofList_history]

/-- A registry without entries is one in which nothing was ever filed. -/
theorem ComesFrom.size_eq_zero_iff (h : r.ComesFrom o) : r.size = 0 ↔ o.history = [] := by
  rw [h.eq_ofList, size_ofList, Finset.card_eq_zero, List.toFinset_eq_empty_iff,
    List.map_eq_nil_iff]

theorem ComesFrom.ofValues {entries : List (Value × Deployment)} {es : List (Key × Deployment)}
    (h : keyed entries = .ok es) : (ofList es).ComesFrom ⟨es, []⟩ := by
  have origin : origins [.start entries] = [⟨es, []⟩] := by
    simp [origins, Move.origin, h, Except.toOption]
  refine ⟨[.start entries], 0, ?_, by rw [origin]; rfl⟩
  rw [play_eq, origin]
  simp [Origin.history]

theorem ComesFrom.withContract {w : Write} {e : Int × Deployment} (h : r.ComesFrom o)
    (written : w.entry = .ok e) : (r.insert (.chain e.1) e.2).ComesFrom (o.write e) := by
  have same := h.eq_ofList
  obtain ⟨moves, i, -, known⟩ := h
  have origin : origins (moves ++ [.derive i w]) = origins moves ++ [o.write e] := by
    rw [origins, List.foldl_append]
    change origins moves ++ (Move.origin (origins moves) (.derive i w)).toList = _
    rw [Move.origin, known, Option.bind_some, written]
    rfl
  refine ⟨moves ++ [.derive i w], (origins moves).length, ?_, ?_⟩
  · rw [play_eq, origin, List.getElem?_map, List.getElem?_concat_length, Option.map_some,
      o.ofList_history_write, ← same]
  · rw [origin, List.getElem?_concat_length]

end Registry

end EthBatch
