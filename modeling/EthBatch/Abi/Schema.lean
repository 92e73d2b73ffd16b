import EthBatch.Fault

/-!
# Type names from interface entries

An interface describes a parameter by a record with a `type` and, for a tuple, `components`.
The name of a tuple type lists the names of its components in parentheses and keeps what
stands after the word `tuple`. Two readings of such records are in use. `Schema.typeText`
takes a missing list of components for an empty one; `Schema.inputText` insists on it, and
takes a text that stands in place of a record for a type name.
-/

namespace EthBatch.Abi.Schema

/-- The word that marks a tuple. -/
def tupleMark : List Char := ['t', 'u', 'p', 'l', 'e']

/-- What stands after the word `tuple` at the start of a type name. -/
def tupleSuffix? (s : String) : Option (List Char) :=
  if tupleMark.isPrefixOf s.toList then some (s.toList.drop 5) else none

/-- The name of a tuple type from the names of its components. -/
def tupleText (components : List String) (suffix : List Char) : String :=
  "(" ++ String.intercalate "," components ++ ")" ++ String.ofList suffix

/-- The `type` of a record, as far as it can be looked at as a text. -/
def typeField (fs : Fields) : Except Fault String :=
  match Fields.get? fs "type" with
  | none => .error (.missingField (some "type"))
  | some (.text s) => .ok s
  | some (.bytes _) => .error .wrongKind
  | some (.buffer _) => .error .wrongKind
  | some _ => .error .noAttribute

/-- Values that yield nothing when walked through, or that cannot be walked through. -/
def noItems (v : Value) : Except Fault (List String) :=
  match v.items? with
  | some [] => .ok []
  | _ => .error .wrongKind

mutual

/-- The type name of a parameter. -/
def typeText : Value → Except Fault String
  | .record fs => do
    let s ← typeField fs
    match tupleSuffix? s with
    | none => .ok s
    | some suffix => do
      let components ← componentTexts fs
      .ok (tupleText components suffix)
  | _ => .error .wrongKind

/-- The type names of the components among the fields of a record. -/
def componentTexts : List (String × Value) → Except Fault (List String)
  | [] => .ok []
  | (k, v) :: fs => if k = "components" then itemTexts v else componentTexts fs

def itemTexts : Value → Except Fault (List String)
  | .list vs => typeTexts vs
  | .tuple vs => typeTexts vs
  | v => noItems v

/-- The type names of several parameters. -/
def typeTexts : List Value → Except Fault (List String)
  | [] => .ok []
  | v :: vs => do
    let t ← typeText v
    let ts ← typeTexts vs
    .ok (t :: ts)

end

/-- The type names of the parameters that a value lists; without a value there are none. -/
def listedTexts : Option Value → Except Fault (List String)
  | none => .ok []
  | some v =>
    match v.items? with
    | some vs => typeTexts vs
    | none => .error .wrongKind

/-- Type names that are listed as texts. -/
def plainTexts (v : Value) : Except Fault (List String) :=
  match v.items? with
  | some vs => vs.mapM fun v => match v with
    | .text s => .ok s
    | _ => .error .noAttribute
  | none => .error .wrongKind

mutual

/-- The type name of an input as signatures show it. -/
def inputText : Value → Except Fault String
  | .text s => .ok s
  | .record fs =>
    match Fields.get? fs "type" with
    | some (.text s) =>
      match tupleSuffix? s with
      | none => .ok s
      | some suffix => do
        let components ← inputComponentTexts fs
        .ok (tupleText components suffix)
    | _ => .error .wrongKind
  | _ => .error .noAttribute

def inputComponentTexts : List (String × Value) → Except Fault (List String)
  | [] => .error (.missingField (some "components"))
  | (k, v) :: fs => if k = "components" then inputItemTexts v else inputComponentTexts fs

def inputItemTexts : Value → Except Fault (List String)
  | .list vs => inputTexts vs
  | .tuple vs => inputTexts vs
  | v => plainTexts v

/-- The type names of several inputs. -/
def inputTexts : List Value → Except Fault (List String)
  | [] => .ok []
  | v :: vs => do
    let t ← inputText v
    let ts ← inputTexts vs
    .ok (t :: ts)

end

end EthBatch.Abi.Schema
