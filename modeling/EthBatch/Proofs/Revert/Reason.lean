import EthBatch.Proofs.Abi.Values
import EthBatch.Proofs.Block
import EthBatch.Revert

/-!
# What a revert states

The data of `Error(string)` with any text have that text for their reason, the empty text included,
and the data of `Panic(uint256)` with any number have the number in lower-case hexadecimal, in at
least two digits. A reverted call keeps its data whatever they are, and shows all of them where it
has no reason to show.
-/

namespace EthBatch

namespace Hex

/-- The lower-case hexadecimal digits of a number, at least two of them. -/
def padded (n : Nat) : List Char := (Nat.toDigits 16 n).leftpad 2 '0'

theorem digit_eq_digitChar {n : Nat} (small : n < 16) : digit n = Nat.digitChar n := by
  have table : ∀ n : Fin 16, digit n.val = Nat.digitChar n.val := by decide
  exact table ⟨n, small⟩

theorem ofNat_eq_toDigits (n : Nat) : ofNat n = Nat.toDigits 16 n := by
  induction n using ofNat.induct with
  | case1 n small =>
      rw [ofNat_of_lt small, Nat.toDigits_of_lt_base small, digit_eq_digitChar small]
  | case2 n large ih =>
      rw [ofNat, if_neg large, ih, Nat.toDigits_of_base_le (by decide) (Nat.le_of_not_lt large),
        digit_eq_digitChar (Nat.mod_lt _ (by decide))]

/-- A byte has two digits. -/
theorem padded_of_lt {n : Nat} (byte : n < 256) : padded n = [digit (n / 16), digit (n % 16)] := by
  have high : n / 16 < 16 := by omega
  rw [padded, ← ofNat_eq_toDigits]
  by_cases small : n < 16
  · rw [ofNat_of_lt small, Nat.div_eq_of_lt small, Nat.mod_eq_of_lt small]
    rfl
  · rw [ofNat, if_neg small, ofNat_of_lt high]
    rfl

theorem encode_eq_flatMap (b : Bytes) : encode b = b.flatMap fun x => padded x.toNat := by
  induction b with
  | nil => rfl
  | cons x b ih =>
      rw [encode_cons, List.flatMap_cons, padded_of_lt x.toNat_lt, ih]
      rfl

end Hex

namespace Abi.Kind

/-- A single value is encoded behind its offset if its size depends on the value. -/
theorem encodeAll_single [Platform] {k : Kind} {v : Value} {b : Bytes}
    (encoded : k.encode v = .ok b) :
    encodeAll [k] [v] = .ok (if k.isDynamic then Bytes.word 0x20 ++ b else b) := by
  rw [encodeAll, encode]
  simp only [Value.sequence?, List.length_singleton, if_true, encodeFields, encoded,
    Except.ok_bind, part]
  cases dynamic : k.isDynamic with
  | false => simp [Except.map, Layout.join, Layout.head, Layout.tail]
  | true =>
      simp [Except.map, Layout.join, Layout.head, Layout.tail, Layout.headSize,
        Layout.Part.headSize]

theorem encodeAll_string [Platform] (s : String) : encodeAll [.string] [.text s] =
    .ok (Bytes.word 0x20 ++ encodeBytes (Text.Utf8.encode s)) := by
  rw [encodeAll_single (by rw [encode])]
  rfl

theorem encodeAll_uint [Platform] {n : Nat} (small : n < 2 ^ 256) :
    encodeAll [.uint 256] [.int n] = .ok (Bytes.word n) := by
  have bound : Nat.pow 2 256 = 2 ^ 256 := rfl
  have word : encode (.uint 256) (.int n) = .ok (Bytes.word n) := by
    rw [encode, encodeInt_eq_ok, bound]
    refine ⟨n, rfl, by omega, by omega, ?_⟩
    congr 1
    omega
  rw [encodeAll_single word]
  rfl

end Abi.Kind

namespace Revert

open Abi

theorem panicText_eq (n : Nat) :
    panicText n = "Panic(0x" ++ String.ofList (Hex.padded n) ++ ")" := by
  rw [panicText, Hex.ofNat_eq_toDigits]
  rfl

/-! ## Reasons -/

variable {data : Bytes} {r : Revert}

/-- A payload that encodes a value gives the reason that the value states. -/
theorem payload_of_encodeAll [Platform] {k : Kind} {v : Value} (regular : k.isRegular = true)
    (encoded : Kind.encodeAll [k] [v] = .ok data) (fits : data.length < maxSize) :
    payload k data = .ok (reasonOf [k.canonical v]) := by
  have whole : (Kind.tuple [k]).isRegular = true := by
    simpa [Kind.isRegular, Kind.areRegular] using regular
  have read := Kind.decodeAll_encodeAll whole encoded fits []
  rw [List.append_nil] at read
  rw [payload, read]
  simp only [Kind.canonicals]

theorem reasonOfData_error (args : Bytes) :
    reasonOfData (errorSelector ++ args) = payload .string args := rfl

theorem reasonOfData_panic (args : Bytes) :
    reasonOfData (panicSelector ++ args) = payload (.uint 256) args := rfl

/-- Data that begin with neither selector state no reason. -/
theorem read_of_unmarked (noError : ¬ errorSelector <+: data) (noPanic : ¬ panicSelector <+: data) :
    read data = .ok ⟨data, none⟩ := by
  have unmarked {selector : Bytes} (size : selector.length = 4) (h : ¬ selector <+: data) :
      data.take 4 ≠ selector := by
    rintro rfl
    exact h (List.take_prefix 4 data)
  rw [read, reasonOfData, if_neg (unmarked rfl noError), if_neg (unmarked rfl noPanic)]
  rfl

/-! ## Data and wording -/

/-- What a reverted call keeps of its data and shows of them. -/
structure Shows (r : Revert) (data : Bytes) : Prop where
  kept : r.data = data
  reason : reasonOfData data = .ok r.reason
  /-- Each byte is shown in two digits. -/
  hex : r.dataText = "0x" ++ String.ofList (data.flatMap fun x => Hex.padded x.toNat)
  /-- The bytes are read back from behind the mark. -/
  lossless : Hex.decode? (r.dataText.toList.drop 2) = some data
  messageOfReason : ∀ s, r.reason = some s → s ≠ "" → r.message = "contract reverted: " ++ s
  messageOfData : r.reason = none ∨ r.reason = some "" → data ≠ [] →
    r.message = "contract reverted with data: " ++ r.dataText

theorem message_of_reason {s : String} (stated : r.reason = some s) (some : s ≠ "") :
    r.message = "contract reverted: " ++ s := by
  have nonempty : s.isEmpty = false := by simpa using some
  rw [message, stated]
  simp only [nonempty, Bool.false_eq_true, if_false]

theorem message_of_data (unstated : r.reason = none ∨ r.reason = some "") (some : r.data ≠ []) :
    r.message = "contract reverted with data: " ++ r.dataText := by
  have nonempty : r.data.isEmpty = false := by simpa using some
  have fallback : message.withoutReason r.data = "contract reverted with data: " ++ r.dataText := by
    rw [message.withoutReason, nonempty]
    rfl
  rcases unstated with unstated | unstated
  · rw [message, unstated]
    exact fallback
  · rw [message, unstated]
    exact fallback

theorem shows_of_read (h : read data = .ok r) : r.Shows data := by
  obtain ⟨reason, stated, rfl⟩ := Except.map_eq_ok.mp h
  refine ⟨rfl, stated, ?_, ?_, fun s => message_of_reason, message_of_data⟩
  · rw [dataText, Hex.prefixed, Hex.text, Hex.encode_eq_flatMap]
  · rw [dataText, Hex.prefixed, Hex.text]
    simp

/-- A text is the reason in data that encode it, and a number is, in hexadecimal. Data that begin
with neither selector state no reason, and whatever the data are, a reverted call shows them. No
byte string is `maxSize` long. -/
theorem keeps_reason_and_data [Platform] :
    (∀ s : String, ∃ args, Kind.encodeAll [.string] [.text s] = .ok args ∧
      ((errorSelector ++ args).length < maxSize →
        reasonOfData (errorSelector ++ args) = .ok (some s))) ∧
    (∀ n : Nat, n < 2 ^ 256 → ∃ args, Kind.encodeAll [.uint 256] [.int n] = .ok args ∧
      reasonOfData (panicSelector ++ args) =
        .ok (some ("Panic(0x" ++ String.ofList (Hex.padded n) ++ ")"))) ∧
    ∀ data : Bytes, dataOfValue (.bytes data) = .ok data ∧
      (∀ r, read data = .ok r → r.Shows data) ∧
      (¬ errorSelector <+: data → ¬ panicSelector <+: data → read data = .ok ⟨data, none⟩) := by
  refine ⟨fun s => ?_, fun n small => ?_, fun data => ⟨rfl, fun r => shows_of_read,
    read_of_unmarked⟩⟩
  · have encoded := Kind.encodeAll_string s
    refine ⟨_, encoded, fun fits => ?_⟩
    rw [List.length_append] at fits
    rw [reasonOfData_error, payload_of_encodeAll rfl encoded (by omega)]
    rfl
  · have encoded := Kind.encodeAll_uint small
    have fits : (Bytes.word n).length < maxSize := by
      rw [Bytes.length_word]
      decide
    refine ⟨_, encoded, ?_⟩
    rw [reasonOfData_panic, payload_of_encodeAll rfl encoded fits, ← panicText_eq]
    rfl

open scoped Platform.Lenient

theorem keeps_reason_and_data_blacklisted :
    (∃ args, Kind.encodeAll [.string] [.text "blacklisted"] = .ok args ∧
      reasonOfData (errorSelector ++ args) = .ok (some "blacklisted")) ∧
    (∃ args, Kind.encodeAll [.uint 256] [.int 0x11] = .ok args ∧
      reasonOfData (panicSelector ++ args) = .ok (some "Panic(0x11)")) ∧
    ∃ r, read [0x12, 0x34, 0x56, 0x78] = .ok r ∧ r.dataText = "0x12345678" ∧
      r.message = "contract reverted with data: 0x12345678" := by
  obtain ⟨texts, codes, others⟩ := keeps_reason_and_data
  obtain ⟨text, encodedText, textBack⟩ := texts "blacklisted"
  obtain ⟨code, encodedCode, codeBack⟩ := codes 0x11 (by decide)
  obtain ⟨_, shows, unmarked⟩ := others [0x12, 0x34, 0x56, 0x78]
  have read := unmarked (by decide) (by decide)
  have shown := shows _ read
  refine ⟨⟨text, encodedText, textBack ?_⟩, ⟨code, encodedCode, codeBack⟩, _, read, shown.hex, ?_⟩
  · obtain rfl := Except.ok.inj ((Kind.encodeAll_string _).symm.trans encodedText)
    decide +kernel
  · rw [shown.messageOfData (.inl rfl) (List.cons_ne_nil _ _), shown.hex]
    rfl

end Revert

end EthBatch
