import EthBatch.Evm.Program

/-!
# Built-in programs

`Aggregator.runtime` is a contract that answers `aggregate3((address,bool,bytes)[])` with
`(bool,bytes)[]`: it makes the calls in order, without value, and reverts with the data of the
first failed call that was not allowed to fail. `creation` is the creation code of a contract
with a given runtime. `wrapper` is a constructor that is followed by `(bytes code, bytes data)`:
it creates `code`, calls it with `data` and returns, or reverts with, what the call gave.
-/

namespace EthBatch.Evm

/-- The push of a number in as few bytes as it needs. -/
def push (n : Nat) : Item := .push (.number n) none

/-- The push of the offset of a label. -/
def pushLabel (name : String) : Item := .push (.label name) none

/-- Reads the memory word at an offset. -/
def load (slot : Nat) : List Item := [push slot, .op .mload]

/-- Writes the top of the stack to the memory word at an offset. -/
def store (slot : Nat) : List Item := [push slot, .op .mstore]

/-- Instructions in order. -/
def ops (os : List Opcode) : List Item := os.map .op

namespace Aggregator

/-! The variables of the aggregator are memory words; the response is built behind them. -/

/-- Calldata position of the length of the calls array. -/
def arraySlot : Nat := 0x00
/-- Number of calls. -/
def countSlot : Nat := 0x20
/-- Index of the current call. -/
def indexSlot : Nat := 0x40
/-- Memory position where the record of the current call starts. -/
def tailSlot : Nat := 0x60
/-- Calldata position of the current call. -/
def callSlot : Nat := 0x80
/-- Calldata position of the length of the current call's data. -/
def dataSlot : Nat := 0xa0
/-- Length of the current call's data. -/
def lengthSlot : Nat := 0xc0
/-- Did the current call succeed? -/
def successSlot : Nat := 0xe0
/-- Start of the response. -/
def output : Nat := 0x100
/-- Start of the head of the response array. -/
def content : Nat := output + 0x40

/-- Reads the array position and length and starts the response. -/
def start : List Item :=
  ([push 4, push 4] ++ ops [.calldataLoad, .add] ++ store arraySlot) ++
  (load arraySlot ++ ops [.calldataLoad] ++ store countSlot) ++
  [push 0x20, push output, .op .mstore] ++
  (load countSlot ++ [push (output + 0x20), .op .mstore]) ++
  ([push 0x20] ++ load countSlot ++ ops [.mul] ++ [push content] ++ ops [.add] ++
    store tailSlot) ++
  ([push 0] ++ store indexSlot)

/-- Is the index past the last call? -/
def compare : List Item := load countSlot ++ load indexSlot ++ ops [.lt, .isZero]

/-- Leaves the loop after the last call. -/
def test : List Item :=
  Item.jumpDest "loop" ++ (compare ++ [pushLabel "done", .op .jumpi])

/-- Finds the current call and its data. -/
def locate : List Item :=
  ([push 0x20] ++ load indexSlot ++ ops [.mul] ++ [push 0x20] ++ ops [.add] ++ load arraySlot ++
    ops [.add, .calldataLoad] ++ [push 0x20] ++ ops [.add] ++ load arraySlot ++ ops [.add] ++
    store callSlot) ++
  (load callSlot ++ [push 0x40] ++ ops [.add, .calldataLoad] ++ load callSlot ++ ops [.add] ++
    store dataSlot) ++
  (load dataSlot ++ ops [.calldataLoad] ++ store lengthSlot)

/-- Copies the calldata to where the result data will go. -/
def stage : List Item :=
  load lengthSlot ++ [push 0x20] ++ load dataSlot ++ ops [.add] ++
  [push 0x60] ++ load tailSlot ++ ops [.add, .calldataCopy]

/-- Makes the call and leaves its success on the stack. -/
def invoke : List Item :=
  [push 0, push 0] ++ load lengthSlot ++ [push 0x60] ++ load tailSlot ++ ops [.add] ++
  [push 0] ++ load callSlot ++ ops [.calldataLoad, .gas, .call]

/-- Makes the current call. -/
def callTarget : List Item := stage ++ invoke ++ store successSlot

/-- Did the call succeed, or was it allowed to fail? -/
def judge : List Item :=
  load callSlot ++ [push 0x20] ++ ops [.add, .calldataLoad, .isZero] ++
  load successSlot ++ ops [.isZero, .and, .isZero]

/-- Copies the result data to the place that a piece of program names. -/
def copyResult (target : List Item) : List Item :=
  ops [.returnDataSize] ++ [push 0] ++ target ++ ops [.returnDataCopy]

/-- Reverts with the result data if the call failed and was not allowed to. -/
def checkFailure : List Item :=
  judge ++ ([pushLabel "record", .op .jumpi] ++
    (copyResult [push 0] ++ (ops [.returnDataSize] ++ [push 0]) ++ ops [.revert]))

/-- Writes the place of the record in the head, the success word, and the offset and length of
the data. -/
def describe : List Item :=
  ([push content] ++ load tailSlot ++ ops [.sub] ++
    [push 0x20] ++ load indexSlot ++ ops [.mul] ++ [push content] ++ ops [.add, .mstore]) ++
  (load successSlot ++ load tailSlot ++ ops [.mstore]) ++
  ([push 0x40, push 0x20] ++ load tailSlot ++ ops [.add, .mstore]) ++
  (ops [.returnDataSize] ++ [push 0x40] ++ load tailSlot ++ ops [.add, .mstore])

/-- Writes zeros behind the result data. -/
def pad : List Item :=
  [push 0] ++ ops [.returnDataSize] ++ [push 0x60] ++ load tailSlot ++ ops [.add, .add, .mstore]

/-- Writes the record of the call: what describes the data, the data, and zeros behind them, for
the copied calldata may still be there. -/
def record : List Item :=
  Item.jumpDest "record" ++
    (describe ++ (copyResult ([push 0x60] ++ load tailSlot ++ ops [.add]) ++ pad))

/-- Makes the next call the current one. -/
def moveOn : List Item :=
  ([push 0x1f, .op .not, push 0x1f] ++ ops [.returnDataSize, .add, .and] ++
    [push 0x60] ++ ops [.add] ++ load tailSlot ++ ops [.add] ++ store tailSlot) ++
  ([push 1] ++ load indexSlot ++ ops [.add] ++ store indexSlot)

/-- Goes on with the next call. -/
def advance : List Item := moveOn ++ [pushLabel "loop", .op .jump]

/-- Where the response is and how long. -/
def extent : List Item := [push output] ++ load tailSlot ++ ops [.sub] ++ [push output]

/-- Returns the response. -/
def finish : List Item := Item.jumpDest "done" ++ (extent ++ ops [.ret])

/-- The loop as far as the verdict on a call. -/
def attempt : List Item := test ++ (locate ++ (callTarget ++ checkFailure))

/-- The rest of the loop. -/
def settle : List Item := record ++ advance

/-- The program of the aggregator. -/
def program : List Item := start ++ (attempt ++ (settle ++ finish))

end Aggregator

/-- A program that returns what stands behind it, given the length of that. -/
def creationProgram (length : Nat) : List Item :=
  [.push (.number length) (some 2), .op (.dup 0), pushLabel "runtime", push 0, .op .codeCopy,
    push 0, .op .ret, .label "runtime"]

/-- Creation code of a contract with the given runtime, which must be shorter than 65536
bytes. -/
def creation (runtime : Bytes) : Except AssemblyFault Bytes := do
  let start ← assemble (creationProgram runtime.length)
  .ok (start ++ runtime)

namespace Wrapper

/-! The arguments stand behind the program and are copied to the start of the memory, where two
words lead to the code and to the data. -/

/-- Copies the arguments. -/
def copyArguments : List Item :=
  [pushLabel "args"] ++ (ops [.codeSize, .sub] ++
    ([pushLabel "args"] ++ ([push 0] ++ ops [.codeCopy])))

/-- Creates the contract. -/
def createContract : List Item :=
  [push 0] ++ ops [.mload, .mload] ++ [push 0x20, push 0] ++ ops [.mload, .add] ++ [push 0] ++
    ops [.create]

/-- Is there no contract? -/
def isMissing : List Item := ops [.dup 0, .isZero]

/-- Gives up without a contract. -/
def checkContract : List Item := isMissing ++ [pushLabel "failed", .op .jumpi]

/-- Calls the contract. -/
def callContract : List Item :=
  [push 0, push 0] ++ [push 0x20] ++ ops [.mload, .mload] ++ [push 0x20, push 0x20] ++
    ops [.mload, .add] ++ [push 0] ++ ops [.dup 5, .gas, .call]

/-- Copies what the call gave. -/
def copyOutput : List Item := ops [.returnDataSize] ++ [push 0, push 0] ++ ops [.returnDataCopy]

/-- Goes on with the return if the call succeeded. -/
def checkCall : List Item := [pushLabel "success", .op .jumpi]

/-- Where the output is and how long. -/
def extent : List Item := ops [.returnDataSize] ++ [push 0]

/-- Reverts with the output. -/
def refuse : List Item := extent ++ ops [.revert]

/-- Returns the output. -/
def finish : List Item := Item.jumpDest "success" ++ (extent ++ ops [.ret])

/-- Reverts with nothing. -/
def giveUp : List Item := Item.jumpDest "failed" ++ ([push 0, push 0] ++ ops [.revert])

/-- The program of the constructor that runs bytecode on calldata. -/
def program : List Item :=
  copyArguments ++ (createContract ++ (checkContract ++ (callContract ++ (copyOutput ++
    (checkCall ++ (refuse ++ (finish ++ (giveUp ++ [.label "args"]))))))))

end Wrapper

/-- The code of a program that is known to assemble. -/
def code (result : Except AssemblyFault Bytes) : Bytes :=
  match result with
  | .ok b => b
  | .error _ => []

/-- The runtime code of the aggregator. -/
def Aggregator.runtime : Bytes := code (assemble Aggregator.program)

/-- The creation code of the aggregator. -/
def Aggregator.creationCode : Bytes := code (creation Aggregator.runtime)

/-- The constructor that runs bytecode on calldata. -/
def wrapper : Bytes := code (assemble Wrapper.program)

end EthBatch.Evm
