import EthBatch.Bytes
import EthBatch.Number.Position

/-!
# Foreign values

What a caller hands in is not yet typed: contract interfaces come as JSON, arguments and
options as whatever the caller has at hand. `Value` is that data, with the few observations
that are made of it before it is understood: its fields, its items, whether it counts as true,
and the name of its kind.
-/

namespace EthBatch

/-- A foreign value. Records keep their fields in the order in which they were first set. -/
inductive Value where
  | null
  | bool (b : Bool)
  | int (n : Int)
  | float (x : Float)
  | decimal (d : Decimal)
  | text (s : String)
  | bytes (b : Bytes)
  /-- Bytes that their owner may still change. -/
  | buffer (b : Bytes)
  | list (items : List Value)
  | tuple (items : List Value)
  | record (fields : List (String × Value))
  /-- A contract object; only its interface matters. -/
  | contract (interface : Value)
  /-- A callable attribute of a facade. -/
  | method (name : String)
  deriving Inhabited

/-- The fields of a record. -/
abbrev Fields := List (String × Value)

namespace Fields

/-- The value of a field. -/
def get? (fs : Fields) (key : String) : Option Value := fs.lookup key

/-- Sets a field: in its place if it exists, at the end otherwise. -/
def set : Fields → String → Value → Fields
  | [], key, v => [(key, v)]
  | (k, old) :: rest, key, v => if k = key then (k, v) :: rest else (k, old) :: set rest key v

/-- Fields in the order of first writing; the last value written to a key counts. -/
def ofList (entries : List (String × Value)) : Fields :=
  entries.foldl (fun fs (k, v) => fs.set k v) []

theorem get?_set_self (fs : Fields) (key : String) (v : Value) :
    (fs.set key v).get? key = some v := by
  induction fs with
  | nil => simp [set, get?]
  | cons f fs ih =>
    obtain ⟨k, old⟩ := f
    by_cases h : k = key
    · simp [set, get?, h]
    · have h' : (key == k) = false := by simpa using fun e => h e.symm
      simpa [set, get?, h, List.lookup_cons, h'] using ih

theorem get?_set_of_ne (fs : Fields) {key other : String} (v : Value) (h : other ≠ key) :
    (fs.set key v).get? other = fs.get? other := by
  induction fs with
  | nil => simp [set, get?, h]
  | cons f fs ih =>
    obtain ⟨k, old⟩ := f
    have ih' : List.lookup other (set fs key v) = List.lookup other fs := ih
    by_cases hk : k = key
    · subst hk
      have h' : (other == k) = false := by simpa using h
      simp [set, get?, List.lookup_cons, h']
    · simp [set, get?, List.lookup_cons, hk, ih']

end Fields

namespace Value

/-- The value of a field, if the value is a record that has it. -/
def field? : Value → String → Option Value
  | .record fs, key => Fields.get? fs key
  | _, _ => none

/-- What one meets when walking through a value: the items of a sequence, the keys of a
record, the characters of a text, the numbers of a byte string. -/
def items? : Value → Option (List Value)
  | .list xs => some xs
  | .tuple xs => some xs
  | .record fs => some (fs.map fun f => .text f.1)
  | .text s => some (s.toList.map fun c => .text (String.ofList [c]))
  | .bytes b => some (b.map fun x => .int x.toNat)
  | .buffer b => some (b.map fun x => .int x.toNat)
  | _ => none

/-- The items of a list or tuple. -/
def sequence? : Value → Option (List Value)
  | .list xs => some xs
  | .tuple xs => some xs
  | _ => none

/-- The bytes of a byte string of either kind. -/
def bytes? : Value → Option Bytes
  | .bytes b => some b
  | .buffer b => some b
  | _ => none

/-- The text, if the value is one. -/
def text? : Value → Option String
  | .text s => some s
  | _ => none

/-- The whole number a value counts as: truth values are one and zero. -/
def number? : Value → Option Int
  | .int n => some n
  | .bool b => some (if b then 1 else 0)
  | _ => none

/-- Where a value that is a number lies among the whole ones. -/
def position? : Value → Option Number.Position
  | .int n => some (.on n)
  | .bool b => some (.on (if b then 1 else 0))
  | .float x => some (.ofFloat x)
  | .decimal d => some (.ofDecimal d)
  | _ => none

mutual

/-- Is a value one that nobody can change? Only such a value serves as a key. -/
def isFixed : Value → Bool
  | .buffer _ => false
  | .list _ => false
  | .record _ => false
  | .tuple xs => areFixed xs
  | _ => true

def areFixed : List Value → Bool
  | [] => true
  | v :: vs => isFixed v && areFixed vs

end

/-- The value, unless it is nothing. -/
def given? : Value → Option Value
  | .null => none
  | v => some v

/-- Does a value count as true? Nothing, zero and everything empty do not. -/
def truthy : Value → Bool
  | .null => false
  | .bool b => b
  | .int n => n ≠ 0
  | .float x => !(x == 0.0)
  | .decimal (.finite _ c _) => c ≠ 0
  | .decimal _ => true
  | .text s => !s.isEmpty
  | .bytes b => !b.isEmpty
  | .buffer b => !b.isEmpty
  | .list xs => !xs.isEmpty
  | .tuple xs => !xs.isEmpty
  | .record fs => !fs.isEmpty
  | .contract _ => true
  | .method _ => true

/-- The name by which messages call the kind of a value. -/
def kindName : Value → String
  | .null => "NoneType"
  | .bool _ => "bool"
  | .int _ => "int"
  | .float _ => "float"
  | .decimal _ => "Decimal"
  | .text _ => "str"
  | .bytes _ => "bytes"
  | .buffer _ => "bytearray"
  | .list _ => "list"
  | .tuple _ => "tuple"
  | .record _ => "dict"
  | .contract _ => "Contract"
  | .method _ => "Function"

/-- The given value, or another one in place of nothing. -/
def orElse (v fallback : Value) : Value :=
  match v with
  | .null => fallback
  | v => v

@[simp] theorem orElse_null (fallback : Value) : Value.null.orElse fallback = fallback := rfl

end Value

end EthBatch
