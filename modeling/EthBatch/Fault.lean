import EthBatch.Abi.Fault
import EthBatch.Address
import EthBatch.Json

/-!
# Faults of foreign values

The reasons for which a value handed in by a caller cannot be used. Most carry no text of
their own; the two that do are worded in `Fault.message?`. Two observations of values that can
fail with them follow: the address that a value denotes, and its order among whole numbers.
-/

namespace EthBatch

/-- Why a foreign value could not be used. -/
inductive Fault where
  /-- The value is of a kind that the operation does not take. -/
  | wrongKind
  /-- The value is of the right kind and its content is refused. -/
  | badValue
  /-- A record lacks a field; the name is known when it is a text. -/
  | missingField (name : Option String)
  /-- A record lacks a field whose name cannot be written. -/
  | longField
  /-- The value is not an object with the operation asked for. -/
  | noAttribute
  /-- A position lies outside a sequence. -/
  | badIndex
  /-- A number does not fit its field. -/
  | tooLarge
  /-- An undefined number was to be compared with another one. -/
  | noOrder
  | notUtf8
  | notAscii
  | notJson
  /-- A document has too many containers inside each other. -/
  | tooDeep
  | notHex
  /-- A value that should be a contract interface is of the named kind. -/
  | notInterface (kind : String)
  /-- No chain has this name. -/
  | unknownChain (shown : String)
  | typeName (cause : Abi.TypeFault)
  | encode (cause : Abi.EncodeFault)
  | decode (cause : Abi.DecodeFault)
  /-- A contract interface has an entry without a type or two functions of one selector. -/
  | badInterface
  /-- A function is asked for by something that is not a text. -/
  | badIdentifier
  /-- No function, or more than one, fits the name and the arguments. -/
  | noMatch
  /-- No function has the name. -/
  | unknownFunction
  /-- The node reported a fault. -/
  | node (text : String)
  deriving DecidableEq, Repr, Inhabited

namespace Fault

/-- The wording of the faults that have one. -/
def message? : Fault → Option String
  | .notInterface kind =>
    some ("ABI must be a JSON string, bytes, list or contract, got " ++ kind)
  | .unknownChain shown =>
    some ("Chain name \x60" ++ shown ++ "\x60 is not in default dictionary")
  | _ => none

/-- The fault of a text that is not a JSON document. -/
def ofJson : Json.Fault → Fault
  | .malformed => .notJson
  | .tooManyDigits => .badValue
  | .tooDeep => .tooDeep

/-- The fault of a text that is not hexadecimal. -/
def ofHex : Hex.Fault → Fault
  | .notAscii => .notAscii
  | .notHex => .notHex

end Fault

/-- The address a foreign value denotes: text, twenty bytes, or a number of forty digits. -/
def Address.ofValue : Value → Except Fault Address
  | .text s => refuse (ofText? s)
  | .bytes b => refuse (ofBytes? b)
  | .buffer b => refuse (ofBytes? b)
  | .int n => refuse (if 0 ≤ n then ofNat? n.toNat else none)
  | .bool _ => .error .badValue
  | _ => .error .wrongKind
where
  /-- Something of the right kind that is no address is a bad value. -/
  refuse : Option Address → Except Fault Address
    | some a => .ok a
    | none => .error .badValue

/-- Is a value, as a number, above a whole one? The comparison is exact, whatever form the number
has. An undefined floating-point number is above nothing; an undefined decimal refuses to be
compared. -/
def Value.isAbove (v : Value) (n : Int) : Except Fault Bool :=
  match v, v.position? with
  | .decimal .undefined, _ => .error .noOrder
  | _, some p => .ok (p.isAbove n)
  | _, none => .error .wrongKind

@[simp] theorem Value.isAbove_int (m n : Int) :
    (Value.int m).isAbove n = .ok (decide (n < m)) := rfl

end EthBatch
