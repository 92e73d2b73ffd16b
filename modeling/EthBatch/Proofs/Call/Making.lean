import EthBatch.Call
import EthBatch.Proofs.Abi.Lookup
import EthBatch.Proofs.Abi.Words
import EthBatch.Proofs.Json

/-!
# Making calls

A call is made whatever it is given, with four exceptions. The interface may be a JSON text with too
many containers inside each other; the first function of the interface without a signature may list
something as an input that is neither a text nor a record; and a number may be too long, in the name
of a type that is looked up, or in the message that says why the call has no calldata.
`Call.Escapes` collects them. In all of them a fault leaves the making of the call; otherwise there
is a call, and it either has calldata or keeps the reason why it has none.
-/

namespace EthBatch

open Abi Except

namespace Abi.Interface

/-! ## The text of an interface -/

/-- The JSON text that an interface is given as, apart from a contract around it. -/
inductive IsText : Value → String → Prop where
  | text (s : String) : IsText (.text s) s
  | bytes {b : Bytes} {s : String} (decoded : Text.Utf8.decode? b = some s) : IsText (.bytes b) s
  | buffer {b : Bytes} {s : String} (decoded : Text.Utf8.decode? b = some s) : IsText (.buffer b) s

/-- What stands in a contract, and any other value itself. -/
def inner : Value → Value
  | .contract interface => interface
  | v => v

theorem ofValue_avoids {f : Fault} (h : ∀ kind, Fault.notInterface kind ≠ f) (v : Value) :
    Avoids f (ofValue v) := by
  unfold ofValue
  split
  all_goals simp [h]

theorem functions_avoids_tooDeep (vs : List Value) : Avoids .tooDeep (functions vs) := by
  induction vs with
  | nil => simp [functions]
  | cons v vs ih =>
      cases v with
      | record fs =>
          rw [functions]
          refine ih.bind fun rest _ => ?_
          split <;> simp
      | _ => simp [functions]

variable [Platform] {v : Value} {s : String}

theorem ofText_eq_tooDeep : ofText s = .error .tooDeep ↔ Json.read s = .error .tooDeep := by
  unfold ofText
  split
  next v read =>
    rw [read]
    exact iff_of_false (ofValue_avoids (by simp) v) nofun
  next f read =>
    rw [read]
    cases f <;> simp [Fault.ofJson]

theorem read_of_isText (h : IsText (inner v) s) : read v = ofText s := by
  cases v with
  | contract w =>
      change IsText w s at h
      cases h with
      | text => rfl
      | bytes decoded | buffer decoded => simp [read, ofBytes, decoded]
  | text => cases h; rfl
  | bytes | buffer =>
      cases h with
      | _ decoded => simp [read, ofBytes, decoded]
  | _ => cases h

/-- What is given up on is a text. -/
theorem isText_of_read (h : read v = .error .tooDeep) : ∃ s, IsText (inner v) s := by
  have bytes {b : Bytes} (h : ofBytes b = .error .tooDeep) :
      ∃ s, Text.Utf8.decode? b = some s := by
    unfold ofBytes at h
    split at h
    next s decoded => exact ⟨s, decoded⟩
    next => cases h
  have other (w : Value) : ofValue w ≠ .error .tooDeep := ofValue_avoids (by simp) w
  cases v with
  | contract w =>
      cases w with
      | text s => exact ⟨s, .text s⟩
      | bytes => exact (bytes h).imp fun _ => .bytes
      | buffer => exact (bytes h).imp fun _ => .buffer
      | _ => simp [read, other] at h
  | text s => exact ⟨s, .text s⟩
  | bytes => exact (bytes h).imp fun _ => .bytes
  | buffer => exact (bytes h).imp fun _ => .buffer
  | _ => simp [read, other] at h

/-- Reading an interface gives up on its depth exactly if it is a text nested too deeply. -/
theorem read_eq_tooDeep : read v = .error .tooDeep ↔
    ∃ s, IsText (inner v) s ∧ Json.read s = .error .tooDeep := by
  constructor
  · intro deep
    obtain ⟨s, given⟩ := isText_of_read deep
    exact ⟨s, given, ofText_eq_tooDeep.mp (read_of_isText given ▸ deep)⟩
  · rintro ⟨s, given, deep⟩
    rw [read_of_isText given, ofText_eq_tooDeep, deep]

end Abi.Interface

namespace Call

section

variable [Platform] {target interface fn args kwargs : Value} {named : Option Fields}
variable {account : Address} {functions : List Entry} {f : Fault} {failure : EncodingFailure}

/-! ## Faults that are not kept -/

/-- The functions of an interface. -/
def functionsOf (interface : Value) : Except Fault (List Entry) :=
  Interface.read interface >>= Interface.functions

/-- Why a call has no calldata, with the account that it calls all the same. -/
inductive Refused (target interface fn args : Value) (named : Option Fields) :
    Address → EncodingFailure → Prop where
  | target {cause : Fault} (refused : Address.ofValue target = .error cause) :
      Refused target interface fn args named .zero ⟨.target, target, cause⟩
  | interface {account : Address} {cause : Fault} (usable : Address.ofValue target = .ok account)
      (unread : functionsOf interface = .error cause) (kept : cause ≠ .tooDeep) :
      Refused target interface fn args named account ⟨.interface, fn, cause⟩
  | function {account : Address} {functions : List Entry} {cause : Fault}
      (usable : Address.ofValue target = .ok account) (read : functionsOf interface = .ok functions)
      (refused : encode functions fn (positional args) named = .error cause)
      (typed : cause ≠ .noAttribute) (short : cause ≠ .typeName .longNumber) :
      Refused target interface fn args named account ⟨.function, fn, cause⟩

/-- Why a call cannot even be made, and the fault that this ends in. -/
inductive Escapes (target interface fn args : Value) (named : Option Fields) : Fault → Prop where
  /-- The interface is a JSON text nested too deeply. -/
  | nesting {account : Address} {s : String} (usable : Address.ofValue target = .ok account)
      (given : Interface.IsText (Interface.inner interface) s)
      (deep : Json.read s = .error .tooDeep) : Escapes target interface fn args named .tooDeep
  /-- The first function without a signature lists an input without a type. -/
  | input {account : Address} {before after : List Entry} {e : Entry} {kwargs : Fields}
      (usable : Address.ofValue target = .ok account)
      (read : functionsOf interface = .ok (before ++ e :: after))
      (keys : named = some kwargs)
      (unreserved : (kwargs.any fun k => Lookup.reservedNames.contains k.1) = false)
      (typed : ∀ entry ∈ before ++ e :: after, Fields.get? entry "type" ≠ none)
      (described : ∀ entry ∈ before, entry.DescribesInputs) (typeless : e.ReachesTypeless) :
      Escapes target interface fn args named .noAttribute
  /-- What is encoded meets a number in the name of a type that is too long. -/
  | size {account : Address} {functions : List Entry}
      (usable : Address.ofValue target = .ok account) (read : functionsOf interface = .ok functions)
      (long : encode functions fn (positional args) named = .error (.typeName .longNumber)) :
      Escapes target interface fn args named (.typeName .longNumber)
  /-- The message that says why there are no calldata shows a number that is too long. -/
  | message {account : Address} {failure : EncodingFailure}
      (refused : Refused target interface fn args named account failure)
      (unwritable : failure.isWritable = false) : Escapes target interface fn args named .badValue

/-- Only a text with more opening brackets than containers may stand inside each other is nested
too deeply. -/
theorem Escapes.openers (h : Escapes target interface fn args named .tooDeep) : ∃ s,
    Interface.IsText (Interface.inner interface) s ∧
      Platform.jsonDepth < Json.openers s.toList := by
  cases h with
  | nesting _ given deep => exact ⟨_, given, Json.openers_of_read_eq_tooDeep deep⟩

/-- Encoding meets an input without a type exactly if the selectors do. -/
theorem encode_eq_noAttribute {args : List Value} :
    encode functions fn args named = .error .noAttribute ↔ ∃ kwargs, named = some kwargs ∧
      (kwargs.any fun k => Lookup.reservedNames.contains k.1) = false ∧
        Lookup.validate functions = .error .noAttribute := by
  cases named with
  | none => simp [encode]
  | some kwargs =>
      simp only [encode, bind_eq_error, Lookup.find_eq_noAttribute, Option.some.injEq,
        exists_eq_left']
      refine ⟨?_, .inl⟩
      rintro (invalid | ⟨e, found, unread | ⟨_, _, impossible⟩⟩)
      · exact invalid
      · exact absurd unread (Lookup.avoids_calldata rfl (Lookup.mem_of_find found).2.spares)
      · cases impossible

/-- Encoding meets a number that is too long only in the types of a function's inputs. -/
theorem Escapes.not_isShort (h : Escapes target interface fn args named (.typeName .longNumber)) :
    ∃ functions, functionsOf interface = .ok functions ∧ ∃ e ∈ functions, ¬ e.IsShort := by
  cases h with
  | @size account functions _ read long =>
      refine ⟨functions, read, Classical.not_forall_not.mp fun short => ?_⟩
      have spares (e : Entry) (mem : e ∈ functions) : e.Spares (.typeName .longNumber) :=
        (Classical.not_not.mp fun long => short e ⟨mem, long⟩).spares
      cases named with
      | none => simp [encode] at long
      | some kwargs =>
          refine Avoids.bind (Lookup.avoids_find rfl (Lookup.avoids_longNumber_validate functions)
            fun _ => spares) (fun e found => ?_) long
          exact (Lookup.avoids_calldata rfl (spares e (Lookup.mem_of_find found).1)).bind
            fun _ _ => .ok _ _

/-- Calldata are a selector and whole words of arguments. -/
theorem data_of_encode {args : List Value} {e : Encoded}
    (h : encode functions fn args named = .ok e) :
    ∃ selector body, selector.length = 4 ∧ 32 ∣ body.length ∧ e.data = selector ++ body := by
  cases named with
  | none => cases h
  | some kwargs =>
      obtain ⟨_, _, h⟩ := bind_eq_ok.mp h
      obtain ⟨data, encoded, h⟩ := bind_eq_ok.mp h
      obtain rfl := Except.ok.inj h
      obtain ⟨selector, _, _, _, body, selected, known, arguments, rfl⟩ :=
        Lookup.calldata_eq_ok encoded
      obtain ⟨text, _, rfl⟩ := map_eq_ok.mp selected
      exact ⟨_, body, Entry.length_selectorOf text, Kind.dvd_length_encodeAll known arguments, rfl⟩

theorem data_ne_nil_of_encode {args : List Value} {e : Encoded}
    (h : encode functions fn args named = .ok e) : e.data ≠ [] := by
  obtain ⟨selector, body, length, _, split⟩ := data_of_encode h
  intro empty
  rw [empty] at split
  have := congrArg List.length split
  rw [List.length_nil, List.length_append, length] at this
  omega

theorem functionsOf_eq_tooDeep : functionsOf interface = .error .tooDeep ↔
    ∃ s, Interface.IsText (Interface.inner interface) s ∧ Json.read s = .error .tooDeep := by
  rw [← Interface.read_eq_tooDeep, functionsOf, bind_eq_error]
  refine ⟨?_, .inl⟩
  rintro (deep | ⟨entries, _, deep⟩)
  · exact deep
  · exact absurd deep (Interface.functions_avoids_tooDeep entries)

/-! ## What is made -/

/-- A call as it is made, once it is known which account is called and how the encoding ended. -/
def build (target fn args : Value) (named : Option Fields) (account : Address)
    (encoding : Except EncodingFailure Encoded) : Call :=
  { address := target, fn, args := positional args, kwargs := named, target := account, encoding }

/-- A call that keeps the reason why it has no calldata, if that can be written. -/
def refuse (target fn args : Value) (named : Option Fields) (account : Address)
    (failure : EncodingFailure) : Except Fault Call :=
  if failure.isWritable then .ok (build target fn args named account (.error failure))
  else .error .badValue

variable {c : Call}

omit [Platform] in
theorem refuse_eq_ok : refuse target fn args named account failure = .ok c ↔
    failure.isWritable = true ∧ build target fn args named account (.error failure) = c := by
  unfold refuse
  split <;> simp [*]

omit [Platform] in
theorem refuse_eq_error : refuse target fn args named account failure = .error f ↔
    failure.isWritable = false ∧ .badValue = f := by
  unfold refuse
  split <;> simp [*]

/-- The ways in which a call is made or not, one after the other. -/
theorem make_eq (names : byName kwargs = .ok named) : make target interface fn args kwargs =
    match Address.ofValue target with
    | .error cause => refuse target fn args named .zero ⟨.target, target, cause⟩
    | .ok account =>
      match functionsOf interface with
      | .error .tooDeep => .error .tooDeep
      | .error cause => refuse target fn args named account ⟨.interface, fn, cause⟩
      | .ok functions =>
        match encode functions fn (positional args) named with
        | .ok e => .ok (build target fn args named account (.ok e))
        | .error .noAttribute => .error .noAttribute
        | .error (.typeName .longNumber) => .error (.typeName .longNumber)
        | .error cause => refuse target fn args named account ⟨.function, fn, cause⟩ := by
  rw [make, names]
  rfl

/-- A call that is made from what is given. -/
inductive Made (target interface fn args : Value) (named : Option Fields) : Call → Prop where
  | refused {account : Address} {failure : EncodingFailure}
      (refused : Refused target interface fn args named account failure)
      (worded : failure.isWritable = true) : Made target interface fn args named
        (build target fn args named account (.error failure))
  | encoded {account : Address} {functions : List Entry} {e : Encoded}
      (usable : Address.ofValue target = .ok account) (read : functionsOf interface = .ok functions)
      (encoded : encode functions fn (positional args) named = .ok e) :
      Made target interface fn args named (build target fn args named account (.ok e))

theorem make_eq_ok (names : byName kwargs = .ok named) :
    make target interface fn args kwargs = .ok c ↔ Made target interface fn args named c := by
  rw [make_eq names]
  constructor
  · intro h
    split at h
    next cause refused =>
      obtain ⟨worded, rfl⟩ := refuse_eq_ok.mp h
      exact .refused (.target refused) worded
    next account usable =>
      split at h
      next => cases h
      next cause kept unread =>
        obtain ⟨worded, rfl⟩ := refuse_eq_ok.mp h
        exact .refused (.interface usable unread kept) worded
      next functions read =>
        split at h
        next e encoded =>
          obtain rfl := Except.ok.inj h
          exact .encoded usable read encoded
        next => cases h
        next => cases h
        next cause typed short refused =>
          obtain ⟨worded, rfl⟩ := refuse_eq_ok.mp h
          exact .refused (.function usable read refused typed short) worded
  · intro made
    cases made with
    | refused refused worded =>
        have made (account : Address) :
            refuse target fn args named account _ = .ok (build target fn args named account _) :=
          refuse_eq_ok.mpr ⟨worded, rfl⟩
        cases refused with
        | target refused =>
            rw [refused]
            exact made _
        | interface usable unread kept =>
            simp only [usable, unread]
            exact made _
        | function usable read refused typed short =>
            simp only [usable, read, refused]
            exact made _
    | encoded usable read encoded => simp only [usable, read, encoded]

theorem make_eq_error (names : byName kwargs = .ok named) :
    make target interface fn args kwargs = .error f ↔
      Escapes target interface fn args named f := by
  rw [make_eq names]
  constructor
  · intro h
    split at h
    next cause refused =>
      obtain ⟨unwritable, rfl⟩ := refuse_eq_error.mp h
      exact .message (.target refused) unwritable
    next account usable =>
      split at h
      next deep =>
        obtain rfl := Except.error.inj h
        obtain ⟨s, given, deep⟩ := functionsOf_eq_tooDeep.mp deep
        exact .nesting usable given deep
      next cause kept unread =>
        obtain ⟨unwritable, rfl⟩ := refuse_eq_error.mp h
        exact .message (.interface usable unread kept) unwritable
      next functions read =>
        split at h
        next => cases h
        next unread =>
          obtain rfl := Except.error.inj h
          obtain ⟨kwargs, keys, unreserved, invalid⟩ := encode_eq_noAttribute.mp unread
          obtain ⟨typed, before, e, after, rfl, described, typeless⟩ :=
            Lookup.validate_eq_noAttribute.mp invalid
          exact .input usable read keys unreserved typed described typeless
        next long =>
          obtain rfl := Except.error.inj h
          exact .size usable read long
        next cause typed short refused =>
          obtain ⟨unwritable, rfl⟩ := refuse_eq_error.mp h
          exact .message (.function usable read refused typed short) unwritable
  · intro escapes
    cases escapes with
    | nesting usable given deep =>
        simp only [usable, functionsOf_eq_tooDeep.mpr ⟨_, given, deep⟩]
    | @input account before after e kwargs usable read keys unreserved typed described typeless =>
        have invalid := Lookup.validate_eq_noAttribute.mpr
          ⟨typed, before, e, after, rfl, described, typeless⟩
        have unread (args : List Value) :
            encode (before ++ e :: after) fn args named = .error .noAttribute :=
          encode_eq_noAttribute.mpr ⟨kwargs, keys, unreserved, invalid⟩
        simp only [usable, read, unread]
    | size usable read long => simp only [usable, read, long]
    | message refused unwritable =>
        have fails (account : Address) :
            refuse target fn args named account _ = .error .badValue :=
          refuse_eq_error.mpr ⟨unwritable, rfl⟩
        cases refused with
        | target refused =>
            rw [refused]
            exact fails _
        | interface usable unread kept =>
            simp only [usable, unread]
            exact fails _
        | function usable read refused typed short =>
            simp only [usable, read, refused]
            exact fails _

/-- A call that is made has calldata or the reason why it has none. -/
theorem Made.data_or_error (h : Made target interface fn args named c) :
    (c.error? = none ∧ c.data ≠ []) ∨ ∃ e, c.error? = some e ∧ c.data = [] := by
  cases h with
  | refused => exact .inr ⟨_, rfl, rfl⟩
  | encoded _ _ encoded => exact .inl ⟨rfl, data_ne_nil_of_encode encoded⟩

/-- The account of a call that is refused is that of its address, if it has one. -/
theorem Refused.target_eq
    (h : Refused target interface fn args named account failure) :
    Address.ofValue target = .ok account ∨
      ((∃ cause, Address.ofValue target = .error cause) ∧ account = .zero) := by
  cases h with
  | target refused => exact .inr ⟨⟨_, refused⟩, rfl⟩
  | interface usable | function usable => exact .inl usable

/-- A call that is made calls the account of its address, or the zero account if it has none. -/
theorem Made.target_eq (h : Made target interface fn args named c) :
    Address.ofValue c.address = .ok c.target ∨
      ((∃ cause, Address.ofValue c.address = .error cause) ∧ c.target = .zero) := by
  cases h with
  | refused refused => exact refused.target_eq
  | encoded usable => exact .inl usable

/-- A call that is made has no calldata, or a selector and whole words of arguments. -/
theorem Made.data_eq (h : Made target interface fn args named c) : c.data = [] ∨
    ∃ selector body, selector.length = 4 ∧ 32 ∣ body.length ∧ c.data = selector ++ body := by
  cases h with
  | refused => exact .inl rfl
  | encoded _ _ encoded => exact .inr (data_of_encode encoded)

/-- Has the call been made from something? -/
def IsMade (c : Call) : Prop :=
  ∃ target interface fn args kwargs, make target interface fn args kwargs = .ok c

theorem IsMade.made (h : c.IsMade) :
    ∃ target interface fn args named, Made target interface fn args named c := by
  obtain ⟨target, interface, fn, args, kwargs, made⟩ := h
  obtain ⟨named, names, -⟩ := bind_eq_ok.mp made
  exact ⟨target, interface, fn, args, named, (make_eq_ok names).mp made⟩

/-- A call of a function that is looked up in a contract is made like any other. -/
theorem IsMade.of_ofFunction (h : ofFunction target interface fn args kwargs = .ok c) :
    c.IsMade := by
  unfold ofFunction at h
  obtain ⟨entries, _, h⟩ := bind_eq_ok.mp h
  obtain ⟨functions, _, h⟩ := bind_eq_ok.mp h
  obtain ⟨named, _, h⟩ := bind_eq_ok.mp h
  extract_lets known at h
  split at h
  · cases h
  · cases named with
    | none => cases h
    | some named =>
        obtain ⟨e, _, h⟩ := bind_eq_ok.mp h
        exact ⟨_, _, _, _, _, h⟩

/-- Making a call fails exactly with what escapes, and if nothing does there is a call, with
calldata or with the reason why it has none. -/
theorem makes_unless_escaping (names : byName kwargs = .ok named) :
    (∀ f, make target interface fn args kwargs = .error f ↔
        Escapes target interface fn args named f) ∧
      ((∀ f, ¬ Escapes target interface fn args named f) →
        ∃ c, make target interface fn args kwargs = .ok c ∧
          ((c.error? = none ∧ c.data ≠ []) ∨ ∃ e, c.error? = some e ∧ c.data = [])) := by
  refine ⟨fun f => make_eq_error names, fun none => ?_⟩
  cases made : make target interface fn args kwargs with
  | error f => exact absurd ((make_eq_error names).mp made) (none f)
  | ok c => exact ⟨c, rfl, ((make_eq_ok names).mp made).data_or_error⟩

end

open scoped Platform.Lenient

/-- The address that is used where any will do. -/
def someTarget : Value := .text "0x1111111111111111111111111111111111111111"

/-- A function of no inputs. -/
def supply : Value :=
  .list [.record [("type", .text "function"), ("name", .text "totalSupply"), ("inputs", .list [])]]

theorem makes_unless_escaping_supply : byName .null = .ok (some []) ∧
    ∃ c, make someTarget supply (.text "totalSupply") .null .null = .ok c ∧
      ((c.error? = none ∧ c.data ≠ []) ∨ ∃ e, c.error? = some e ∧ c.data = []) := by
  have made : (make someTarget supply (.text "totalSupply") .null .null).isOk = true := by
    decide +kernel
  have ⟨escaping, otherwise⟩ :=
    @makes_unless_escaping _ someTarget supply (.text "totalSupply") .null .null (some []) rfl
  refine ⟨rfl, otherwise fun f escapes => ?_⟩
  rw [(escaping f).mpr escapes] at made
  cases made

/-- A function whose input is a number. -/
def numberInput : Value :=
  .list [.record [("type", .text "function"), ("name", .text "f"), ("inputs", .list [.int 5])]]

/-- The interface is read, and still no call is made. -/
theorem exists_interface_without_call : ∃ interface, (functionsOf interface).isOk = true ∧
    make someTarget interface (.text "f") .null .null = .error .noAttribute :=
  ⟨numberInput, by decide +kernel, by rfl⟩

end Call

end EthBatch
