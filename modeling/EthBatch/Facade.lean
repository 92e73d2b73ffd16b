import EthBatch.Client.Run

/-!
# Facades

A facade stands for one contract. Each function of the contract's interface that only reads
becomes an attribute, which takes a list of arguments for many calls at once. The facade keeps
its own state in attributes too, in the same namespace: its client, its target, its interface
and the table of its functions. Looking up an attribute finds what was written last under its
name; names that were never written are looked for in the table.
-/

namespace EthBatch

/-- The value of an attribute. -/
inductive Attribute where
  | nothing
  | client (c : Client)
  | target (a : Address)
  | interface (entries : List Value)
  /-- The names of the functions, in order. -/
  | table (names : List String)
  | function (name : String)

/-- A facade is its attributes. -/
structure Facade where
  attributes : List (String × Attribute)

/-- What stands for a result in a plain list: its value, or the failure itself. -/
inductive PlainItem where
  | value (v : Value)
  | failure (cause : Failure)

/-- The item of a result. -/
def PlainItem.ofResult : CallResult → PlainItem
  | .ok v => .value v
  | .error f => .failure f

/-- How a run ended that gives plain items. -/
inductive PlainOutcome where
  | returned (items : List PlainItem)
  | raised (error : Error)
  | pending

/-- A run that gives plain items. -/
structure PlainRun where
  outcome : PlainOutcome
  requests : List (Nat × Request)
  log : List Log.Record

namespace Run

/-- A run with an item for each of its results. -/
def plain (run : Run) : PlainRun :=
  { outcome := match run.outcome with
      | .returned results => .returned (results.map .ofResult)
      | .raised error => .raised error
      | .pending => .pending
    requests := run.requests
    log := run.log }

end Run

namespace Facade

/-- The attributes that hold a facade's own state. -/
def clientKey : String := "_multicall"
def targetKey : String := "_target"
def interfaceKey : String := "_abi"
def tableKey : String := "_functions"

/-- A facade that has not been set up. -/
def blank : Facade :=
  ⟨[(clientKey, .nothing), (targetKey, .nothing), (interfaceKey, .nothing), (tableKey, .table [])]⟩

/-- What an attribute holds. -/
def get? (f : Facade) (name : String) : Option Attribute := f.attributes.lookup name

/-- Writes an attribute. -/
def set (f : Facade) (name : String) (a : Attribute) : Facade :=
  ⟨(name, a) :: f.attributes.filter (·.1 ≠ name)⟩

/-- The name of an entry that only reads, and nothing for any other entry. -/
def viewName (entry : Value) : Except Fault (Option Value) :=
  match entry with
  | .record fs =>
    match Fields.get? fs "stateMutability" with
    | some (.text "view") => named fs
    | some (.text "pure") => named fs
    | _ => .ok none
  | _ => .error .noAttribute
where
  /-- Such an entry must have a name. -/
  named (fs : Fields) : Except Fault (Option Value) :=
    match Fields.get? fs "name" with
    | some name => .ok (some name)
    | none => .error (.missingField (some "name"))

/-- Names under which a function cannot be written, with the fault of trying it. -/
def sealedNames : List (String × Fault) :=
  [("__class__", .wrongKind), ("__dict__", .wrongKind), ("__weakref__", .noAttribute)]

/-- Exposes one function: in the table, and as an attribute. -/
def expose (f : Facade) (name : String) : Except Fault Facade :=
  match f.get? tableKey with
  | some (.table names) =>
    let names := if names.contains name then names else names ++ [name]
    match sealedNames.lookup name with
    | some fault => .error fault
    | none => .ok ((f.set tableKey (.table names)).set name (.function name))
  | _ => .error .wrongKind

/-- Exposes the functions among entries. -/
def exposeAll (f : Facade) : List Value → Except Fault Facade
  | [] => .ok f
  | entry :: entries => do
    match ← viewName entry with
    | none => exposeAll f entries
    | some (.text name) => do
      let g ← expose f name
      exposeAll g entries
    | some _ => .error .wrongKind

/-- Sets a facade up for a target and an interface. Attributes that were written before stay
unless they are written again. -/
def setup [Platform] (f : Facade) (client : Client) (target interface : Value) :
    Except Fault Facade := do
  let f := f.set clientKey (.client client)
  let target ← Address.ofValue target
  let f := f.set targetKey (.target target)
  let entries ← Abi.Interface.read interface
  let f := f.set interfaceKey (.interface entries)
  exposeAll (f.set tableKey (.table [])) entries

/-- The names in the table of functions. -/
def functions (f : Facade) : List String :=
  match f.get? tableKey with
  | some (.table names) => names
  | _ => []

/-- Looks a function up in the table. Names that begin with an underscore are never found
there. -/
def lookup (f : Facade) (name : String) : Except Error String :=
  if ['_'].isPrefixOf name.toList then .error (.noFunction name)
  else match f.get? tableKey with
    | some (.table names) =>
      if names.contains name then .ok name else .error (.noFunction name)
    | _ => .error (.fault .wrongKind)

/-- Makes a facade. It needs a client. -/
def make [Platform] (style : Style) (client : Option Client) (target interface : Value) :
    Except Error Facade :=
  match client with
  | none => .error (.missingSource (Client.constructorName style) "multicall")
  | some c => (blank.setup c target interface).mapError .fault

/-- Names that all facades of a style have without being functions of a contract. -/
def ownNames : Style → List String
  | .pool => ["Function", "_setup_functions"]
  | .tasks => ["Function", "_setup_functions", "setup"]

/-- Names that every object has. They stand for nothing that takes arguments for calls. -/
def objectNames : List String := [
  "__class__", "__delattr__", "__dict__", "__dir__", "__doc__", "__format__",
  "__getattribute__", "__getstate__", "__hash__", "__init__", "__init_subclass__",
  "__module__", "__new__", "__reduce__", "__reduce_ex__", "__repr__", "__setattr__",
  "__sizeof__", "__str__", "__weakref__"]

/-- Names that every object has and that take an argument, but give nothing that can be
called. -/
def comparisonNames : List String :=
  ["__eq__", "__ge__", "__getattr__", "__gt__", "__le__", "__lt__", "__ne__", "__subclasshook__"]

/-- The fault of calling what a facade has of its own under a name, if it has something. -/
def ownFault? (f : Facade) (name : String) : Option Fault :=
  let own := match f.get? clientKey with
    | some (.client c) => ownNames c.style
    | _ => []
  if own.contains name || objectNames.contains name then some .wrongKind
  else if comparisonNames.contains name then some .noAttribute
  else none

/-- The function behind an attribute. An attribute that holds something else cannot be
called. -/
def function (f : Facade) (name : String) : Except Error String :=
  match f.get? name with
  | some (.function g) => .ok g
  | some _ => .error (.fault .wrongKind)
  | none =>
    match f.ownFault? name with
    | some fault => .error (.fault fault)
    | none => f.lookup name

/-- The target as a value that calls are made with. -/
def targetValue (f : Facade) : Value :=
  match f.get? targetKey with
  | some (.target a) => .text a.text
  | some (.function name) => .method name
  | _ => .null

/-- The interface as a value that calls are made with. -/
def interfaceValue (f : Facade) : Value :=
  match f.get? interfaceKey with
  | some (.interface entries) => .list entries
  | some (.function name) => .method name
  | _ => .null

/-- The options that a facade passes on. -/
def optionNames : List String :=
  ["allow_failure", "batch_size", "block_identifier", "max_concurrent_chunks"]

/-- One call for each item of the arguments. -/
def calls [Platform] (f : Facade) (name : String) (params : Value) : Except Fault (List Call) :=
  match params.items? with
  | none => .error .wrongKind
  | some items =>
    items.mapM fun args => Call.make f.targetValue f.interfaceValue (.text name) args .null

/-- Calls a function once for each item of the arguments. -/
def call [Platform] (f : Facade) (node : Node) (name : String) (params : Value)
    (options : Fields) : Run :=
  if options.any fun o => !optionNames.contains o.1 then
    .early (.raised (.fault .wrongKind)) []
  else match f.calls name params, CallOptions.ofFields options, f.get? clientKey with
    | .ok calls, .ok o, some (.client c) => c.call node (calls.map .call) o none
    | .error e, _, _ => .early (.raised (.fault e)) []
    | _, .error e, _ => .early (.raised (.fault e)) []
    | _, _, _ => .early (.raised (.fault .noAttribute)) []

/-- Calls a function like `call`, and gives plain items. -/
def plainCall [Platform] (f : Facade) (node : Node) (name : String) (params : Value)
    (options : Fields) : PlainRun := (f.call node name params options).plain

end Facade

end EthBatch
