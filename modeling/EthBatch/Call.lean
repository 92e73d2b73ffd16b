import EthBatch.Abi.Decode
import EthBatch.Abi.Lookup

/-!
# Calls

A call names a contract, a function of its interface and arguments. It is encoded when it is
made, and making it does not fail on bad input: the reason is kept in place of the calldata,
and the call still takes its place in a batch, with the zero address if its own is unusable. The
reason is kept in words, and there are none if it shows a number too long to be written.
-/

namespace EthBatch

/-- What could not be done when a call was made. -/
inductive EncodingStep where
  | target
  | interface
  | function
  deriving DecidableEq, Repr, Inhabited

/-- Why a call has no calldata: the step, the value that the message shows, and the cause. -/
structure EncodingFailure where
  step : EncodingStep
  subject : Value
  cause : Fault
  deriving Inhabited

namespace EncodingFailure

/-- The wording of a failure. -/
def message (f : EncodingFailure) : String :=
  match f.step with
  | .target => "invalid target address " ++ f.subject.written
  | .interface => "failed to parse ABI for " ++ f.subject.written
  | .function => "failed to encode call for " ++ f.subject.written

/-- Can the message be written? It shows the subject and, of the cause, the name of a field that is
not there. -/
def isWritable (f : EncodingFailure) : Bool :=
  f.subject.isWritable && match f.cause with
    | .longField => false
    | _ => true

end EncodingFailure

/-- A function with the calldata of one call of it. -/
structure Encoded where
  function : Abi.Entry
  data : Bytes

/-- One call of a contract function. -/
structure Call where
  /-- The address as it was given. -/
  address : Value
  fn : Value
  args : List Value
  /-- Nothing, if one of the names is no text. -/
  kwargs : Option Fields
  /-- The account that is called. -/
  target : Address
  encoding : Except EncodingFailure Encoded

namespace Call

/-- The calldata; a call that could not be encoded has none. -/
def data (c : Call) : Bytes :=
  match c.encoding with
  | .ok e => e.data
  | .error _ => []

/-- Why the call could not be encoded. -/
def error? (c : Call) : Option EncodingFailure :=
  match c.encoding with
  | .ok _ => none
  | .error f => some f

/-- Arguments by position: nothing stands for none, a value that is no sequence for one. -/
def positional : Value → List Value
  | .null => []
  | .list vs => vs
  | .tuple vs => vs
  | v => [v]

/-- A pair is anything that has two items; the first of them must be able to serve as a key. -/
def pair (v : Value) : Except Fault (Value × Value) :=
  match v.items? with
  | none => .error .wrongKind
  | some [name, argument] => if name.isFixed then .ok (name, argument) else .error .wrongKind
  | some _ => .error .badValue

/-- The fields that pairs make up, unless the first item of one is no text. -/
def fieldsOfPairs (pairs : List (Value × Value)) : Option Fields :=
  (pairs.mapM fun (p : Value × Value) => p.1.text?.map (·, p.2)).map Fields.ofList

/-- Arguments by name, from a record or from a sequence of pairs, of which the last one for a
name counts. Other names than texts can be given, but no function takes them. -/
def byName : Value → Except Fault (Option Fields)
  | .null => .ok (some [])
  | .record fs => .ok (some fs)
  | v =>
    match v.items? with
    | none => .error .wrongKind
    | some items => (items.mapM pair).map fieldsOfPairs

/-- Selects the function and encodes the arguments. -/
def encode [Platform] (functions : List Abi.Entry) (fn : Value) (args : List Value)
    (kwargs : Option Fields) : Except Fault Encoded :=
  match kwargs with
  | none => .error .wrongKind
  | some kwargs => do
    let e ← Abi.Lookup.find functions fn args kwargs
    let data ← Abi.Lookup.calldata e args kwargs
    .ok ⟨e, data⟩

/-- Makes a call. What is not caught is an interface whose inputs are not records or whose text
is nested too deeply, a number too long in the name of a type or in the message of a failure, and
arguments by name that are no pairs. -/
def make [Platform] (target interface fn args kwargs : Value) : Except Fault Call := do
  let args := positional args
  let kwargs ← byName kwargs
  let build (account : Address) (encoding : Except EncodingFailure Encoded) : Call :=
    { address := target, fn, args, kwargs, target := account, encoding }
  let refuse (account : Address) (failure : EncodingFailure) : Except Fault Call :=
    if failure.isWritable then .ok (build account (.error failure)) else .error .badValue
  match Address.ofValue target with
  | .error cause => refuse .zero ⟨.target, target, cause⟩
  | .ok account =>
    match Abi.Interface.read interface >>= Abi.Interface.functions with
    | .error .tooDeep => .error .tooDeep
    | .error cause => refuse account ⟨.interface, fn, cause⟩
    | .ok functions =>
      match encode functions fn args kwargs with
      | .ok e => .ok (build account (.ok e))
      | .error .noAttribute => .error .noAttribute
      | .error (.typeName .longNumber) => .error (.typeName .longNumber)
      | .error cause => refuse account ⟨.function, fn, cause⟩

/-- The names of the output types of a function. -/
def outputTypes (function : Abi.Entry) : Except Fault (List String) :=
  Abi.Schema.listedTexts (Fields.get? function "outputs")

/-- A single output stands for itself, several make a tuple. -/
def bare : List Value → Value
  | [v] => v
  | vs => .tuple vs

/-- The value that the output of a function stands for. The outer fault is one of the
interface or a number that cannot be read; the inner one is a fault of the data. -/
def decodeOutput (function : Abi.Entry) (data : Bytes) : Except Fault (Except Fault Value) := do
  let types ← outputTypes function
  match Abi.Kind.ofTexts types with
  | .error .unparsable => .error (.typeName .unparsable)
  | .error .longNumber => .error (.typeName .longNumber)
  | .error f => .ok (.error (.typeName f))
  | .ok ks =>
    match Abi.Kind.decodeAll ks data with
    | .ok vs => .ok (.ok (bare (Abi.Kind.presentEach ks vs)))
    | .error .tooLong => .error (.decode .tooLong)
    | .error f => .ok (.error (.decode f))

/-- The written form of a call, if it has one. -/
def written (c : Call) : Except Fault String :=
  if c.address.isWritable && c.fn.isWritable && Value.areWritable c.args then
    .ok ("Call(" ++ c.address.written ++ ", " ++ c.fn.written ++ ", args=" ++
      (Value.list c.args).written ++ ")")
  else .error .badValue

/-- The calldata of a function found for its name and arguments in a contract object, called
again as an interface of its own. A name that no function has is told apart from arguments that
no function takes. -/
def ofFunction [Platform] (target interface fn args kwargs : Value) : Except Fault Call := do
  let entries ← Abi.Interface.read interface
  let functions ← Abi.Interface.functions entries
  let named ← byName kwargs
  let known := match fn with
    | .text identifier => functions.any fun e =>
        match Fields.get? e "name" with
        | some (.text name) => name == Abi.Lookup.nameOf identifier
        | _ => false
    | _ => true
  if !known then .error .unknownFunction
  else match named with
    | none => .error .wrongKind
    | some named => do
      let e ← Abi.Lookup.find functions fn (positional args) named
      make target (.list [.record e]) ((Fields.get? e "name").getD .null) args kwargs

end Call

end EthBatch
