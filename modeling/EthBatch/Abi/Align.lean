import EthBatch.Abi.Interface

/-!
# Arguments in the order of the inputs

Arguments given by name are put in the order of the inputs, and structs given as records in
the order of their components. The latter is done for a tuple and for unsized arrays of tuples
of any depth. Surplus fields of a record are dropped, and a struct given as a sequence is cut
to the number of its components.
-/

namespace EthBatch.Abi

namespace Align

/-- The number of unsized array suffixes, if a text holds nothing else. -/
def unsizedSuffixes? : List Char → Option Nat
  | [] => some 0
  | '[' :: ']' :: rest => (unsizedSuffixes? rest).map (· + 1)
  | _ => none

/-- The number of arrays around a tuple, if a type is a tuple in unsized arrays. -/
def depth? (type : String) : Option Nat :=
  (Schema.tupleSuffix? type).bind unsizedSuffixes?

/-- The same kind of sequence with other items. -/
def resequence (v : Value) (items : List Value) : Value :=
  match v with
  | .list _ => .list items
  | _ => .tuple items

/-- The fault of looking up a name that a record lacks. Only a fixed value can be looked up. -/
def missing (name : Value) : Fault :=
  match name with
  | .text s => .missingField (some s)
  | name =>
    if !name.isFixed then .wrongKind
    else if name.isWritable then .missingField none
    else .longField

/-- Applies a function to the structs inside arrays of the given depth. A record in place of
an array is looked into for the name of the input, which it does not have. -/
def atDepth (name : Option Value) (f : Value → Except Fault Value) :
    Nat → Value → Except Fault Value
  | 0, v => f v
  | depth + 1, v =>
    match v, v.sequence? with
    | _, some items => do
      let items ← items.mapM (atDepth name f depth)
      .ok (resequence v items)
    | .record _, none => .error ((name.map missing).getD (.missingField (some "name")))
    | _, none => .error .wrongKind

/-- The field of a record that belongs to a component. -/
def componentValue (fs : Fields) (component : Value) : Except Fault Value :=
  match component with
  | .record c =>
    match Fields.get? c "name" with
    | none => .error (.missingField (some "name"))
    | some name =>
      match name.text?.bind (Fields.get? fs) with
      | some v => .ok v
      | none => .error (missing name)
  | _ => .error .wrongKind

/-- The values of a struct in the order of its components. -/
def structValues (components : List Value) (v : Value) : Except Fault (List Value) :=
  match v, v.sequence? with
  | _, some vs => .ok vs
  | .record fs, none => components.mapM (componentValue fs)
  | _, none => .error .wrongKind

mutual

/-- An argument with its structs in the order of their components. -/
def align : (input argument : Value) → Except Fault Value
  | .record fs, v =>
    match (Fields.get? fs "type").bind Value.text? with
    | none => .error .wrongKind
    | some type =>
      match depth? type with
      | none => .ok v
      | some depth =>
        atDepth (Fields.get? fs "name") (fun v => alignWithin fs v) depth v
  | _, _ => .error .wrongKind

def alignWithin : List (String × Value) → Value → Except Fault Value
  | [], _ => .error (.missingField (some "components"))
  | (k, components) :: fs, v =>
    if k = "components" then alignStruct components v else alignWithin fs v

def alignStruct : (components argument : Value) → Except Fault Value
  | .list cs, v => do
    let vs ← structValues cs v
    let vs ← alignEach cs vs
    .ok (.tuple vs)
  | .tuple cs, v => do
    let vs ← structValues cs v
    let vs ← alignEach cs vs
    .ok (.tuple vs)
  | cs, v => do
    let _ ← Schema.noItems cs
    let _ ← structValues [] v
    .ok (.tuple [])

/-- Aligns as many arguments as there are inputs for. -/
def alignEach : (inputs arguments : List Value) → Except Fault (List Value)
  | c :: cs, v :: vs => do
    let v ← align c v
    let vs ← alignEach cs vs
    .ok (v :: vs)
  | _, _ => .ok []

end

end Align

namespace Entry

/-- The name of an input, in the written form, which tells a text from anything else. -/
def inputName (input : Value) : Except Fault String :=
  match input with
  | .record fs =>
    match Fields.get? fs "name" with
    | none => .error (.missingField (some "name"))
    | some (.list _) => .error .wrongKind
    | some (.record _) => .error .wrongKind
    | some name => .ok name.written
  | _ => .error .wrongKind

/-- The arguments in the order of the inputs. The number must be right; an argument by name
must name an input that no argument by position has taken. Inputs of equal names share one
argument. -/
def normalize (inputs args : List Value) (kwargs : Fields) : Except Fault (List Value) := do
  if args.length + kwargs.length ≠ inputs.length then .error .wrongKind
  else if kwargs.isEmpty then .ok args
  else
    let names ← inputs.mapM inputName
    let placed := names.zip args
    let named := kwargs.map fun (k, v) => ((Value.text k).written, v)
    if named.any fun n => placed.any (·.1 == n.1) || !names.contains n.1 then .error .wrongKind
    else .ok (names.eraseDups.filterMap fun n => (named ++ placed.reverse).lookup n)

/-- The arguments of a function as its codec takes them. -/
def arguments (e : Entry) (args : List Value) (kwargs : Fields) : Except Fault (List Value) := do
  let inputs ← inputs e
  let vs ← normalize inputs args kwargs
  Align.alignEach inputs vs

end Entry

end EthBatch.Abi
