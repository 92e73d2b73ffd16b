import EthBatch.Block
import EthBatch.Aggregate
import EthBatch.Error
import EthBatch.Evm.Builtin
import EthBatch.Node
import EthBatch.Registry
import EthBatch.Settings

/-!
# Clients

A client knows its chain, where to find an aggregator, and how to do without one. Its requests
run either in a pool of workers or as tasks that can be cancelled; everything else is the same
for both. The destination of a call is decided by `Client.destination`: an address that is
given with the call, else the client's own, else none for deployless calls, else the one that
the registry has for the chain.
-/

namespace EthBatch

/-- A client. -/
structure Client where
  style : Style
  /-- The chain as it was given or as the node named it; nothing if it is not known. -/
  chain : Value
  customAddress : Option Address
  settings : Settings
  registry : Registry
  /-- The wrapper of deployless requests. -/
  wrapper : Bytes
  /-- The aggregator's creation code in deployless requests. -/
  code : Bytes

namespace Client

/-- What a client is made from. -/
structure Config where
  /-- Is there a connection to a node? -/
  connected : Bool
  chain : Value
  chainName : Value
  address : Value
  settings : Settings
  registry : Registry
  wrapper : Option Bytes

/-- The name of the constructor in messages. -/
def constructorName : Style → String
  | .pool => "__init__"
  | .tasks => "setup"

/-- The first of two values that counts as true, as an address. -/
def chosenAddress (given : Value) (own : Option Address) : Except Fault (Option Address) :=
  if given.truthy then (Address.ofValue given).map some else .ok own

/-- The chain that a configuration names: the number itself, or the number of a name. -/
def namedChain (c : Config) : Except Fault Value :=
  match c.chain with
  | .null => if c.chainName.truthy then Chain.resolve c.chainName else .ok .null
  | v => .ok v

/-- A wrapper that has to have some bytes. -/
def requireWrapper (b : Bytes) : Except Error Bytes :=
  if b.isEmpty then
    .error (.deploylessNotConfigured (.text "deployless call wrapper bytecode"))
  else .ok b

/-- The wrapper that a foreign value states. -/
def wrapperOfValue (v : Value) : Except Error Bytes :=
  match Deployless.bytesOf v with
  | .error f => .error (.fault f)
  | .ok b => requireWrapper (b.getD [])

/-- The wrapper that settings name, or the built-in one. -/
def wrapperOf (s : Settings) : Except Error Bytes :=
  match Settings.codeBytes s.wrapperCode with
  | .error f => .error (.fault f)
  | .ok none => .ok Evm.wrapper
  | .ok (some b) => requireWrapper b

/-- The aggregator code that settings name; empty code stands for the built-in one. -/
def codeOf (s : Settings) : Except Error Bytes :=
  match s.code with
  | .error f => .error (.fault f)
  | .ok none => .ok Evm.Aggregator.creationCode
  | .ok (some []) => .ok Evm.Aggregator.creationCode
  | .ok (some b) => .ok b

/-- A registry without entries stands for the default one. -/
def registryOf (r : Registry) : Registry := if r.size = 0 then .default else r

/-- Everything about a client that needs no node. -/
def configure (style : Style) (c : Config) : Except Error Client := do
  if !c.connected then .error (.missingSource (constructorName style) "transport")
  else
    let chain ← (namedChain c).mapError .fault
    let customAddress ← (chosenAddress c.address c.settings.address).mapError .fault
    let wrapper ← match c.wrapper with
      | some b => .ok b
      | none => wrapperOf c.settings
    let code ← codeOf c.settings
    .ok { style, chain, customAddress, settings := c.settings,
          registry := registryOf c.registry, wrapper, code }

/-- Does a client have to ask the node for its chain? -/
def asksForChain (c : Client) : Bool :=
  match c.chain with
  | .null => c.customAddress.isNone
  | _ => false

/-- Makes a client; the node is asked for its chain if neither the chain nor an address is
known. -/
def make (style : Style) (config : Config) (node : Node) : Except Error Client := do
  let c ← configure style config
  if c.asksForChain then
    match node.chain with
    | .ok chain => .ok { c with chain }
    | .error text => .error (.fault (.node text))
  else .ok c

/-- The registered address for the client's chain at a block. -/
def registered (c : Client) (block : Value) : Except Error Value :=
  match c.chain with
  | .null => .error .chainNotConfigured
  | chain => do
    let found ← (c.registry.get chain).mapError .fault
    match found with
    | none => .error (Error.worded (.chainUnsupported chain (.text "multicall3") .null))
    | some d =>
      match ← (Block.height block).mapError .fault with
      | none => .ok d.address
      | some n =>
        if ← (d.isCreatedAfter n).mapError .fault then
          .error (Error.worded (.chainUnsupported chain (.text "multicall3") (.int n)))
        else .ok d.address

/-- What the destination of a call depends on, beside the client. -/
structure Place where
  address : Value := .null
  deployless : Value := .bool false
  block : Value := .text "latest"

namespace Place

/-- Sets the option of a name. -/
def set (p : Place) (name : String) (v : Value) : Except Fault Place :=
  match name with
  | "multicall_address" => .ok { p with address := v }
  | "deployless" => .ok { p with deployless := v }
  | "block_identifier" => .ok { p with block := v }
  | _ => .error .wrongKind

/-- Options by name; a name that is no option is refused. -/
def ofFields (fs : Fields) : Except Fault Place := fs.foldlM (fun p f => p.set f.1 f.2) {}

end Place

/-- The address that a call is sent to, or none for a deployless call. -/
def destination (c : Client) (address : Value) (deployless : Bool) (block : Value) :
    Except Error (Option Value) := do
  match ← (chosenAddress address c.customAddress).mapError .fault with
  | some a => .ok (some (.text a.text))
  | none => if deployless then .ok none else (c.registered block).map Value.given?

/-- The request for a chunk, whose sub-calls may be values of any kind. Without an address, or
when asked to, it carries the wrapper and the aggregator's code. -/
def request [Platform] (c : Client) (chunk : List Value) (address : Option Value)
    (deployless : Bool) (block : Value) : Except Abi.EncodeFault Request := do
  let calldata ← Aggregate.encode chunk
  match address, deployless with
  | some address, false => .ok ⟨some address, calldata, block⟩
  | _, _ => do
    let data ← Deployless.wrap c.wrapper (.bytes c.code) (.bytes calldata)
    .ok ⟨none, data, block⟩

end Client

end EthBatch
