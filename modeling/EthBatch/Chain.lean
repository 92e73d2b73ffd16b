import EthBatch.Fault
import EthBatch.Number.Numeral
import EthBatch.Value.Written

/-!
# Chains and their names

A chain is identified by a number. It may also be given by a decimal text or by a name, in any
letter case and with blanks around it.
-/

namespace EthBatch.Chain

/-- The chains that have a name of their own. -/
def names : List (String × Nat) := [
  ("ethereum", 1), ("optimism", 10), ("bsc", 56), ("polygon", 137), ("base", 8453),
  ("arbitrum", 42161), ("avalanche", 43114), ("sepolia", 11155111)]

/-- Further names of the same chains. -/
def aliases : List (String × Nat) := [
  ("eth", 1), ("mainnet", 1), ("op", 10), ("bnb", 56), ("matic", 137), ("arb", 42161),
  ("avax", 43114)]

/-- The number of a chain name in lower case. -/
def ofName? (name : String) : Option Nat := (names ++ aliases).lookup name

/-- The number of a chain given by text; the last argument is the text as a message shows
it. -/
def ofChars (cs : List Char) (shown : String) : Except Fault Int :=
  let name := (Text.trim cs).map Char.toLower
  if !name.isEmpty && name.all Text.isDigit then
    match Number.natural? name with
    | some n => .ok n
    | none => .error .badValue
  else match ofName? (String.ofList name) with
    | some n => .ok n
    | none => .error (.unknownChain shown)

/-- The characters of ASCII bytes; other bytes are none of those that matter here. -/
def asciiChars (b : Bytes) : List Char :=
  b.map fun x => if x < 128 then Char.ofNat x.toNat else Char.ofNat 0xfffd

/-- The digits of a chain in a byte string; a byte string is equal to no name. -/
def ofBytes? (b : Bytes) : Option (Except Fault Int) :=
  let name := Text.trimBy (fun c => c == ' ' || (9 ≤ c.toNat && c.toNat ≤ 13)) (asciiChars b)
  if name.isEmpty || !name.all Number.isAsciiDigit then none
  else match Number.natural? name with
    | some n => some (.ok n)
    | none => some (.error .badValue)

/-- The identifier of a chain. Numbers and truth values are identifiers already. -/
def resolve (v : Value) : Except Fault Value :=
  match v with
  | .int n => .ok (.int n)
  | .bool b => .ok (.bool b)
  | .text s => (ofChars s.toList s).map .int
  | .bytes b => ((ofBytes? b).getD (.error (.unknownChain v.written))).map .int
  | .buffer b => ((ofBytes? b).getD (.error .wrongKind)).map .int
  | _ => .error .noAttribute

/-- The number under which a registry knows a chain. -/
def number (v : Value) : Except Fault Int := do
  let id ← resolve v
  .ok (id.number?.getD 0)

end EthBatch.Chain
