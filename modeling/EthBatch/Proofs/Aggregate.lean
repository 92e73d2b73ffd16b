import EthBatch.Aggregate
import EthBatch.Node.Script
import EthBatch.Proofs.Abi.RoundTrip

/-!
# Requests and answers on the wire

Sub-calls and answers always have an encoding, which is written out here byte by byte, and both
come back from it. Neither cares for what stands behind.
-/

namespace EthBatch

open Abi

theorem Abi.Kind.encodeEach_map {α : Type} {f : Value → Except EncodeFault Bytes} {k : Kind}
    {value : α → Value} {body : α → Bytes} (h : ∀ x, f (value x) = .ok (body x)) (xs : List α) :
    Kind.encodeEach f k (xs.map value) = .ok (xs.map fun x => k.part (body x)) := by
  induction xs with
  | nil => rfl
  | cons x xs ih => simp [Kind.encodeEach, h, ih]

/-- A list of parts that all belong in the tail, with its length in front. -/
def Abi.Layout.array (bodies : List Bytes) : Bytes :=
  Bytes.word bodies.length ++ Layout.join (bodies.map fun b => ⟨true, b⟩)

/-- The offsets of bodies that stand one behind the other from an offset on. -/
def Abi.Layout.heads (offset : Nat) (bodies : List Bytes) : Bytes :=
  head (bodies.map fun b => ⟨true, b⟩) offset

theorem Abi.Layout.headSize_map (bodies : List Bytes) :
    headSize (bodies.map fun b => ⟨true, b⟩) = 0x20 * bodies.length := by
  induction bodies with
  | nil => rfl
  | cons b bodies ih =>
      rw [List.map_cons, headSize_cons, ih, Part.headSize, if_pos rfl, List.length_cons]
      omega

theorem Abi.Layout.tail_map (bodies : List Bytes) :
    tail (bodies.map fun b => ⟨true, b⟩) = bodies.flatten := by
  induction bodies with
  | nil => rfl
  | cons b bodies ih =>
      rw [List.map_cons, tail_cons, ih, if_pos rfl, List.flatten_cons]

@[simp] theorem Abi.Layout.length_heads (offset : Nat) (bodies : List Bytes) :
    (heads offset bodies).length = 0x20 * bodies.length := by
  rw [heads, length_head, headSize_map]

theorem Abi.Layout.heads_append (offset : Nat) (bodies more : List Bytes) :
    heads offset (bodies ++ more) =
      heads offset bodies ++ heads (offset + bodies.flatten.length) more := by
  rw [heads, List.map_append, head_append, tail_map, heads, heads]

theorem Abi.Layout.heads_cons (offset : Nat) (b : Bytes) (bodies : List Bytes) :
    heads offset (b :: bodies) = Bytes.word offset ++ heads (offset + b.length) bodies := rfl

/-- The length, the offsets and the bodies. -/
theorem Abi.Layout.array_eq (bodies : List Bytes) :
    array bodies =
      Bytes.word bodies.length ++ (heads (0x20 * bodies.length) bodies ++ bodies.flatten) := by
  rw [array, join, headSize_map, tail_map, heads]

theorem Abi.Layout.length_array (bodies : List Bytes) :
    (array bodies).length = 0x20 + (bodies.map fun b => 0x20 + b.length).sum := by
  have sizes : headSize (bodies.map fun b => ⟨true, b⟩) +
      (tail (bodies.map fun b => ⟨true, b⟩)).length =
      (bodies.map fun b => 0x20 + b.length).sum := by
    induction bodies with
    | nil => rfl
    | cons b bodies ih =>
        simp only [List.map_cons, headSize_cons, Part.headSize, tail_cons, if_true,
          List.length_append, List.sum_cons]
        omega
  rw [array, List.length_append, Bytes.length_word, length_join, sizes]

/-- Fewer bodies take less room. -/
theorem Abi.Layout.length_array_le {bodies more : List Bytes} (h : bodies.Sublist more) :
    (array bodies).length ≤ (array more).length := by
  rw [length_array, length_array]
  induction h with
  | slnil => exact Nat.le_refl _
  | cons b _ ih =>
      rw [List.map_cons, List.sum_cons]
      omega
  | cons_cons b _ ih =>
      rw [List.map_cons, List.sum_cons, List.map_cons, List.sum_cons]
      omega

/-- The only argument of a function, an array of a dynamic type. -/
theorem Abi.Kind.encodeAll_array [Platform] {α : Type} {k : Kind} {value : α → Value}
    {body : α → Bytes} (dynamic : k.isDynamic = true)
    (h : ∀ x, k.encode (value x) = .ok (body x)) (xs : List α) :
    Kind.encodeAll [.array k] [.list (xs.map value)] =
      .ok (Bytes.word 0x20 ++ Layout.array (xs.map body)) := by
  simp [Kind.encodeAll, Kind.encode, Kind.encodeFields, Value.sequence?, Kind.encodeEach_map h,
    Except.map, Kind.part, Kind.isDynamic, dynamic, Layout.join, Layout.head, Layout.array,
    Layout.Part.headSize, Function.comp_def]

namespace SubCall

/-- The encoding of a sub-call. -/
def body (c : SubCall) : Bytes :=
  Bytes.padStart 0 c.target.bytes ++ (Bytes.word (if c.allowFailure then 1 else 0) ++
    (Bytes.word 0x60 ++ Kind.encodeBytes c.data))

theorem length_target (c : SubCall) : (Bytes.padStart 0 c.target.bytes).length = 32 := by
  apply Bytes.length_padStart
  rw [c.target.size]
  decide

theorem encode_toValue [Platform] (c : SubCall) :
    Aggregate.callKind.encode c.toValue = .ok c.body := by
  simp [Aggregate.callKind, toValue, Kind.encode, Kind.encodeFields, Value.sequence?, Except.map,
    Kind.addressBytes?, Kind.isTaken, Value.bytes?, Kind.part, Kind.isDynamic, Layout.join,
    Layout.head, Layout.Part.headSize, length_target, body]

/-- A sub-call as it is read back, with its target in lower case. -/
def plainValue (c : SubCall) : Value :=
  .tuple [.text c.target.plainText, .bool c.allowFailure, .bytes c.data]

end SubCall

namespace Aggregate

/-- The encoding of an answer. -/
def answerBody (a : Answer) : Bytes :=
  Bytes.word (if a.success then 1 else 0) ++ (Bytes.word 0x40 ++ Kind.encodeBytes a.data)

theorem encode_answerValue [Platform] (a : Answer) :
    answerKind.encode (answerValue a) = .ok (answerBody a) := by
  simp [answerKind, answerValue, Kind.encode, Kind.encodeFields, Value.sequence?, Except.map,
    Value.bytes?, Kind.part, Kind.isDynamic, Layout.join, Layout.head, Layout.Part.headSize,
    answerBody]

/-- The calldata that asks the aggregator for a list of sub-calls. -/
def calldata (calls : List SubCall) : Bytes :=
  selector ++ (Bytes.word 0x20 ++ Layout.array (calls.map SubCall.body))

/-- The output of an aggregator that gives a list of answers. -/
def response (answers : List Answer) : Bytes :=
  Bytes.word 0x20 ++ Layout.array (answers.map answerBody)

/-- Every list of sub-calls has calldata. -/
theorem encode_calls [Platform] (calls : List SubCall) :
    encode (calls.map SubCall.toValue) = .ok (calldata calls) := by
  rw [encode, Kind.encodeAll_array (by rfl) SubCall.encode_toValue]
  rfl

theorem encodeAnswers_eq [Platform] (answers : List Answer) :
    encodeAnswers answers = .ok (response answers) :=
  Kind.encodeAll_array (by rfl) encode_answerValue answers

theorem length_calldata_le {calls more : List SubCall} (h : calls.Sublist more) :
    (calldata calls).length ≤ (calldata more).length := by
  have := Layout.length_array_le (h.map SubCall.body)
  simp only [calldata, List.length_append]
  omega

theorem length_answerBody (a : Answer) :
    (answerBody a).length = 0x60 + Bytes.ceil32 a.data.length := by
  simp only [answerBody, Kind.encodeBytes, List.length_append, Bytes.length_word,
    Bytes.length_padEnd]
  omega

/-- The output is as long as what the answers take. -/
theorem length_response (answers : List Answer) : (response answers).length =
    0x40 + (answers.map fun a => 0x80 + Bytes.ceil32 a.data.length).sum := by
  have bodies (a : Answer) : 0x20 + (answerBody a).length = 0x80 + Bytes.ceil32 a.data.length := by
    rw [length_answerBody]
    omega
  rw [response, List.length_append, Bytes.length_word, Layout.length_array, List.map_map]
  simp only [Function.comp_def, bodies]
  omega

theorem length_response_le {answers more : List Answer} (h : answers.Sublist more) :
    (response answers).length ≤ (response more).length := by
  have := Layout.length_array_le (h.map answerBody)
  simp only [response, List.length_append]
  omega

/-! ## Round trips -/

theorem canonical_toValue (c : SubCall) : callKind.canonical c.toValue = c.plainValue := by
  simp [callKind, SubCall.toValue, SubCall.plainValue, Kind.canonical, Kind.canonicals,
    Value.sequence?, Kind.addressBytes?, Value.bytes?]

theorem canonical_answerValue (a : Answer) :
    answerKind.canonical (answerValue a) = answerValue a := by
  simp [answerKind, answerValue, Kind.canonical, Kind.canonicals, Value.sequence?, Value.bytes?]

theorem filterMap_answerValue (answers : List Answer) :
    (answers.map answerValue).filterMap answerOf? = answers := by
  rw [List.filterMap_map]
  exact List.filterMap_some

theorem mapM_plainValue (calls : List SubCall) :
    (calls.map SubCall.plainValue).mapM subCallOf? = some calls := by
  induction calls with
  | nil => rfl
  | cons c cs ih => simp [List.mapM_cons, ih, subCallOf?, SubCall.plainValue]

/-- The answers come back from the output that encodes them. -/
theorem decode_response {answers : List Answer} (fits : (response answers).length < maxSize)
    (rest : Bytes) : decode (response answers ++ rest) = .ok answers := by
  let _ : Platform := .lenient
  have read := Kind.decodeAll_encodeAll (by rfl) (encodeAnswers_eq answers) fits rest
  have some : (response answers ++ rest).isEmpty = false := by
    simp [response, Bytes.word, Bytes.ofNat]
  simp only [Kind.canonicals, Kind.canonical, Value.sequence?, Option.getD_some, List.map_map,
    Function.comp_def, canonical_answerValue] at read
  simp only [decode, some, Bool.false_eq_true, if_false, read]
  exact congrArg Except.ok (filterMap_answerValue answers)

/-- The sub-calls come back as values from the arguments that encode them. -/
theorem decodeAll_calls {calls : List SubCall}
    (fits : (Bytes.word 0x20 ++ Layout.array (calls.map SubCall.body)).length < maxSize)
    (rest : Bytes) : Kind.decodeAll [.array callKind]
      (Bytes.word 0x20 ++ Layout.array (calls.map SubCall.body) ++ rest) =
        .ok [.tuple (calls.map SubCall.plainValue)] := by
  let _ : Platform := .lenient
  rw [Kind.decodeAll_encodeAll (by rfl)
    (Kind.encodeAll_array (by rfl) SubCall.encode_toValue calls) fits rest]
  simp only [Kind.canonicals, Kind.canonical, Value.sequence?, Option.getD_some, List.map_map,
    Function.comp_def, canonical_toValue]

/-- The sub-calls come back from the calldata that asks for them. -/
theorem decodeCalls?_calldata {calls : List SubCall} (fits : (calldata calls).length < maxSize)
    (rest : Bytes) : decodeCalls? (calldata calls ++ rest) = some calls := by
  have size : selector.length = 4 := rfl
  rw [calldata, List.length_append] at fits
  rw [calldata, List.append_assoc, decodeCalls?, List.take_left' size, if_pos rfl,
    List.drop_left' size, decodeAll_calls (Nat.lt_of_le_of_lt (Nat.le_add_left _ _) fits)]
  exact mapM_plainValue calls

/-- Two byte strings come back from the arguments that encode them. -/
theorem decodeAll_bytes [Platform] {code data args : Bytes}
    (h : Kind.encodeAll [.bytes, .bytes] [.bytes code, .bytes data] = .ok args)
    (fits : args.length < maxSize) :
    Kind.decodeAll [.bytes, .bytes] args = .ok [.bytes code, .bytes data] := by
  have read := Kind.decodeAll_encodeAll (by rfl) h fits []
  rw [List.append_nil] at read
  simp only [read, Kind.canonicals, Kind.canonical, Value.bytes?]

/-- Code and calldata come back from behind their wrapper. -/
theorem unwrap?_wrap [Platform] {wrapper code data b : Bytes}
    (h : Deployless.wrap wrapper (.bytes code) (.bytes data) = .ok b)
    (fits : b.length < maxSize) : unwrap? wrapper b = some (code, data) := by
  obtain ⟨args, hargs, rfl⟩ := Except.map_eq_ok.mp h
  rw [List.length_append] at fits
  have read := decodeAll_bytes hargs (Nat.lt_of_le_of_lt (Nat.le_add_left _ _) fits)
  simp only [unwrap?, List.take_left' rfl, if_true, List.drop_left' rfl, read]

end Aggregate

end EthBatch
