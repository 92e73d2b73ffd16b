import EthBatch.Abi.Align
import EthBatch.Abi.Encode

/-!
# Finding a function

A function is asked for by its name or by its whole signature, together with arguments. The
candidates are narrowed down by the number of inputs, the name, the types of the arguments and
the signature; exactly one must remain.
-/

namespace EthBatch.Abi

namespace Entry

/-- The name that an argument must not have once there is a function to try it on. -/
def reservedName : String := "abi_element"

/-- Is every argument a value of its type? The first one that is not decides, and a number too long
in the name of a type is a fault. -/
def acceptsEach [Platform] : List (String × Value) → Except Fault Bool
  | [] => .ok true
  | (type, v) :: rest =>
    match Kind.ofText type with
    | .error .longNumber => .error (.typeName .longNumber)
    | .error _ => .ok false
    | .ok k => if k.accepts v then acceptsEach rest else .ok false

/-- Can the function take the arguments? A field that an input should have and lacks is a fault
of the interface, as is a type name with a number too long, and a reserved name is a fault of the
arguments; everything else that goes wrong means no. -/
def takes [Platform] (args : List Value) (kwargs : Fields) (e : Entry) : Except Fault Bool := do
  if kwargs.any (·.1 == reservedName) then .error .wrongKind
  let inputs ← inputs e
  match normalize inputs args kwargs with
  | .error (.missingField name) => .error (.missingField name)
  | .error _ => .ok false
  | .ok vs =>
    if vs.length ≠ inputs.length then .ok false
    else match Align.alignEach inputs vs with
      | .error (.missingField name) => .error (.missingField name)
      | .error .longField => .error .longField
      | .error _ => .ok false
      | .ok aligned => do
        let types ← Schema.inputTexts inputs
        acceptsEach (types.zip aligned)

/-- Has the function this name? A function must have one. -/
def isNamed (name : String) (e : Entry) : Except Fault Bool :=
  match Fields.get? e "name" with
  | none => .error (.missingField (some "name"))
  | some (.text other) => .ok (other == name)
  | some _ => .ok false

/-- Has the function this number of inputs? -/
def hasInputs (n : Nat) (e : Entry) : Except Fault Bool := (inputs e).map (·.length == n)

/-- Has the function exactly this signature? -/
def hasSignature (text : String) (e : Entry) : Except Fault Bool := (signature e).map (· == text)

end Entry

namespace Lookup

/-- Does the text hold an opening and a closing parenthesis next to each other? -/
def mentionsNoInputs (identifier : String) : Bool :=
  Kind.mentionsEmptyTuple identifier.toList

/-- The part of an identifier before its first parenthesis. -/
def nameOf (identifier : String) : String :=
  String.ofList (identifier.toList.takeWhile (· ≠ '('))

/-- Does the identifier spell out the input types? -/
def hasTypes (identifier : String) : Bool := identifier.toList.contains '('

/-- Names that stand for parts of a contract other than functions. -/
def specialNames : List String := ["constructor", "fallback", "receive"]

/-- Names that an argument by name must not have, whatever the functions are. -/
def reservedNames : List String := ["abi", "abi_element_identifier", "abi_codec"]

/-- Every entry has a type, and no two functions share a selector. -/
def validate (functions : List Entry) : Except Fault Unit := do
  if functions.any fun e => (Fields.get? e "type").isNone then .error .badInterface
  else
    let selectors ← functions.mapM Entry.selector
    if selectors.eraseDups.length = selectors.length then .ok () else .error .badInterface

/-- The functions that fit an identifier and arguments. -/
def candidates [Platform] (functions : List Entry) (identifier : String) (args : List Value)
    (kwargs : Fields) : Except Fault (List Entry) := do
  if identifier ∈ specialNames then .ok []
  else
    let n := args.length + kwargs.length
    let name := nameOf identifier
    let found ←
      if n = 0 then functions.filterM (Entry.isNamed name)
      else do
        let counted ←
          if mentionsNoInputs identifier then .ok functions
          else functions.filterM (Entry.hasInputs n)
        let named ← counted.filterM (Entry.isNamed name)
        named.filterM (Entry.takes args kwargs)
    if hasTypes identifier then found.filterM (Entry.hasSignature identifier) else .ok found

/-- The one function that fits. A report on several or none needs the names of all. -/
def find [Platform] (functions : List Entry) (identifier : Value) (args : List Value)
    (kwargs : Fields) : Except Fault Entry := do
  if kwargs.any fun f => reservedNames.contains f.1 then .error .wrongKind
  else
    validate functions
    match identifier with
    | .text identifier => do
      let found ← candidates functions identifier args kwargs
      match found with
      | [e] => .ok e
      | _ =>
        if functions.any fun e => (Fields.get? e "name").isNone then
          .error (.missingField (some "name"))
        else .error .noMatch
    | _ => .error .badIdentifier

/-- The calldata of a function: its selector and the encoded arguments. -/
def calldata [Platform] (e : Entry) (args : List Value) (kwargs : Fields) : Except Fault Bytes := do
  let vs ← Entry.arguments e args kwargs
  let inputs ← Entry.inputs e
  let types ← Schema.inputTexts inputs
  let selector ← Entry.selector e
  match Kind.ofTexts types with
  | .error f => .error (.typeName f)
  | .ok ks =>
    match Kind.encodeAll ks vs with
    | .error f => .error (.encode f)
    | .ok body => .ok (selector ++ body)

end Lookup

end EthBatch.Abi
