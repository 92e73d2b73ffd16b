import EthBatch.Error
import EthBatch.Settings.EnvFile
import EthBatch.Settings.Field

/-!
# Settings

Seven settings govern a client. One that is not given is taken from the environment, or has a
default. Values from the environment go through the same checks as given ones. All refused
values are reported together; a variable that cannot even be read ends everything at once.
-/

namespace EthBatch

/-- The settings of a client. -/
structure Settings where
  /-- Calldata bytes of one chunk; zero and less lift the limit. -/
  batchSize : Int
  /-- Requests in flight at once; zero and less lift the limit. -/
  maxConcurrentChunks : Int
  deployless : Bool
  /-- An aggregator to be used instead of the registered one. -/
  address : Option Address
  /-- Creation code of the aggregator for deployless requests. -/
  aggregatorCode : Option String
  /-- The wrapper for deployless requests. -/
  wrapperCode : Option String
  /-- Seconds that all chunks of a call may take together. -/
  timeout : Option Float

namespace Settings

/-- A setting: its name, the value it has without being given, and how its value is read. -/
structure Spec (α : Type) where
  name : String
  fallback : Environment → Except Fault Value
  read : Value → Except Problem α

def batchSizeSpec : Spec Int :=
  ⟨"batch_size", fun env => env.int "MULTICALL_BATCH_SIZE" 1024, Field.int⟩

def maxConcurrentChunksSpec : Spec Int :=
  ⟨"max_concurrent_chunks", fun env => env.int "MULTICALL_MAX_CONCURRENT_CHUNKS" 4, Field.int⟩

def deploylessSpec : Spec Bool :=
  ⟨"deployless", fun env => env.switch "MULTICALL_DEPLOYLESS", Field.bool⟩

def addressSpec : Spec (Option Address) :=
  ⟨"multicall_address", fun env => env.text "MULTICALL_ADDRESS", Field.optional Field.address⟩

def aggregatorCodeSpec : Spec (Option String) :=
  ⟨"multicall_bytecode", fun env => env.text "MULTICALL_BYTECODE", Field.optional Field.bytecode⟩

def wrapperCodeSpec : Spec (Option String) :=
  ⟨"deployless_bytecode", fun env => env.text "DEPLOYLESS_CALL_BYTECODE",
    Field.optional Field.bytecode⟩

def timeoutSpec : Spec (Option Float) :=
  ⟨"timeout", fun env => env.float "MULTICALL_TIMEOUT", Field.optional Field.seconds⟩

namespace Spec

variable {α : Type}

/-- The value of a setting before it is read: the given one, or the fallback. -/
def source (s : Spec α) (env : Environment) (given : Fields) : Except Fault Value :=
  match Fields.get? given s.name with
  | some v => .ok v
  | none => s.fallback env

/-- A setting, or why it was refused. -/
def get (s : Spec α) (env : Environment) (given : Fields) : Except Fault (Except FieldFault α) :=
  (s.source env given).map fun v => (s.read v).mapError fun p => ⟨s.name, p⟩

end Spec

/-- The fault of a refused setting. -/
def refusal {α : Type} : Except FieldFault α → List FieldFault
  | .ok _ => []
  | .error f => [f]

/-- Settings from given values and an environment. -/
def make (env : Environment) (given : Fields) : Except Error Settings :=
  let read {α : Type} (s : Spec α) : Except Error (Except FieldFault α) :=
    (s.get env given).mapError .fault
  do
    let batchSize ← read batchSizeSpec
    let maxConcurrentChunks ← read maxConcurrentChunksSpec
    let deployless ← read deploylessSpec
    let address ← read addressSpec
    let aggregatorCode ← read aggregatorCodeSpec
    let wrapperCode ← read wrapperCodeSpec
    let timeout ← read timeoutSpec
    match batchSize, maxConcurrentChunks, deployless, address, aggregatorCode, wrapperCode,
        timeout with
    | .ok batchSize, .ok maxConcurrentChunks, .ok deployless, .ok address, .ok aggregatorCode,
        .ok wrapperCode, .ok timeout =>
      .ok { batchSize, maxConcurrentChunks, deployless, address, aggregatorCode, wrapperCode,
            timeout }
    | _, _, _, _, _, _, _ =>
      .error (.settings (refusal batchSize ++ refusal maxConcurrentChunks ++
        refusal deployless ++ refusal address ++ refusal aggregatorCode ++
        refusal wrapperCode ++ refusal timeout))

/-- Settings from given values, an environment and a file of variables. -/
def load (env : Environment) (file : String) (given : Fields) : Except Error Settings := do
  let env ← (EnvFile.load env file).mapError .fault
  make env given

/-- The bytes of a hexadecimal text that is not empty. -/
def codeBytes : Option String → Except Fault (Option Bytes)
  | none => .ok none
  | some s =>
    if s.isEmpty then .ok none
    else match Hex.read s.toList with
      | .ok b => .ok (some b)
      | .error f => .error (.ofHex f)

/-- The creation code of the aggregator that the settings state. -/
def code (s : Settings) : Except Fault (Option Bytes) := codeBytes s.aggregatorCode

end Settings

end EthBatch
