import EthBatch.Abi.Schema
import EthBatch.Keccak
import EthBatch.Value.Written

/-!
# Contract interfaces

An interface is a list of entries. It comes as JSON text, as the bytes of such a text, as the
list itself, as a single entry, or inside a contract object. The functions among its entries
are those whose `type` says so or is absent.
-/

namespace EthBatch.Abi

/-- One entry of an interface. -/
abbrev Entry := Fields

namespace Interface

/-- The list that a value, read or given, makes up. -/
def ofValue : Value → Except Fault (List Value)
  | .record fs => .ok [.record fs]
  | .list vs => .ok vs
  | .tuple vs => .ok vs
  | v => .error (.notInterface v.kindName)

/-- The list that a JSON text makes up. -/
def ofText [Platform] (s : String) : Except Fault (List Value) :=
  match Json.read s with
  | .ok v => ofValue v
  | .error f => .error (.ofJson f)

/-- The list that the bytes of a JSON text make up. -/
def ofBytes [Platform] (b : Bytes) : Except Fault (List Value) :=
  match Text.Utf8.decode? b with
  | some s => ofText s
  | none => .error .notUtf8

/-- The entries of an interface in any of its forms. -/
def read [Platform] (v : Value) : Except Fault (List Value) :=
  let inner := match v with
    | .contract interface => interface
    | v => v
  match inner with
  | .bytes b => ofBytes b
  | .buffer b => ofBytes b
  | .text s => ofText s
  | v => ofValue v

/-- The functions among the entries; an entry that is no record spoils all. -/
def functions : List Value → Except Fault (List Entry)
  | [] => .ok []
  | .record fs :: vs => do
    let rest ← functions vs
    match Fields.get? fs "type" with
    | none => .ok (fs :: rest)
    | some (.text "function") => .ok (fs :: rest)
    | some _ => .ok rest
  | _ :: _ => .error .noAttribute

end Interface

namespace Entry

/-- The inputs of a function; without the field there are none. -/
def inputs (e : Entry) : Except Fault (List Value) :=
  match Fields.get? e "inputs" with
  | none => .ok []
  | some v =>
    match v.items? with
    | some vs => .ok vs
    | none => .error .wrongKind

/-- The name of a function as signatures show it. -/
def shownName (e : Entry) : String :=
  match Fields.get? e "name" with
  | some v => v.shown
  | none => "function"

/-- Name and input types. -/
def signature (e : Entry) : Except Fault String := do
  let inputs ← inputs e
  let types ← Schema.inputTexts inputs
  .ok (shownName e ++ Schema.tupleText types [])

/-- The four bytes by which a contract recognises the function of a signature. -/
def selectorOf (signature : String) : Bytes :=
  (Keccak.hash (Text.Utf8.encode (String.ofList (signature.toList.filter (· ≠ ' '))))).take 4

@[simp] theorem length_selectorOf (signature : String) : (selectorOf signature).length = 4 := by
  simp [selectorOf]

/-- The selector of a function. -/
def selector (e : Entry) : Except Fault Bytes := (signature e).map selectorOf

end Entry

end EthBatch.Abi
