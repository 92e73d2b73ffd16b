/-!
# Opcodes

The instructions of the machine that the built-in programs use. An instruction other than a
push is one byte. Pushes are not among them: their byte follows from their width.
-/

namespace EthBatch.Evm

/-- An instruction without an immediate operand. `dup n` and `swap n` reach `n` items further
than the shortest of their kind. -/
inductive Opcode where
  | stop | add | mul | sub | div
  | lt | gt | eq | isZero | and | or | not
  | calldataLoad | calldataSize | calldataCopy | codeSize | codeCopy
  | returnDataSize | returnDataCopy
  | pop | mload | mstore | jump | jumpi | gas | jumpDest
  | dup (n : Fin 16)
  | swap (n : Fin 16)
  | create | call | ret | revert | invalid
  deriving DecidableEq, Repr

namespace Opcode

/-- The byte of an instruction. -/
def byte : Opcode → UInt8
  | .stop => 0x00 | .add => 0x01 | .mul => 0x02 | .sub => 0x03 | .div => 0x04
  | .lt => 0x10 | .gt => 0x11 | .eq => 0x14 | .isZero => 0x15
  | .and => 0x16 | .or => 0x17 | .not => 0x19
  | .calldataLoad => 0x35 | .calldataSize => 0x36 | .calldataCopy => 0x37
  | .codeSize => 0x38 | .codeCopy => 0x39
  | .returnDataSize => 0x3d | .returnDataCopy => 0x3e
  | .pop => 0x50 | .mload => 0x51 | .mstore => 0x52
  | .jump => 0x56 | .jumpi => 0x57 | .gas => 0x5a | .jumpDest => 0x5b
  | .dup n => UInt8.ofNat (0x80 + n)
  | .swap n => UInt8.ofNat (0x90 + n)
  | .create => 0xf0 | .call => 0xf1 | .ret => 0xf3 | .revert => 0xfd | .invalid => 0xfe

/-- The instructions that carry no number. -/
def plain : List Opcode := [
  .stop, .add, .mul, .sub, .div, .lt, .gt, .eq, .isZero, .and, .or, .not,
  .calldataLoad, .calldataSize, .calldataCopy, .codeSize, .codeCopy,
  .returnDataSize, .returnDataCopy, .pop, .mload, .mstore, .jump, .jumpi, .gas, .jumpDest,
  .create, .call, .ret, .revert, .invalid]

/-- All instructions. -/
def all : List Opcode := plain ++ (List.finRange 16).map .dup ++ (List.finRange 16).map .swap

/-- The name of an instruction in an assembler program. -/
def name : Opcode → String
  | .stop => "STOP" | .add => "ADD" | .mul => "MUL" | .sub => "SUB" | .div => "DIV"
  | .lt => "LT" | .gt => "GT" | .eq => "EQ" | .isZero => "ISZERO"
  | .and => "AND" | .or => "OR" | .not => "NOT"
  | .calldataLoad => "CALLDATALOAD" | .calldataSize => "CALLDATASIZE"
  | .calldataCopy => "CALLDATACOPY" | .codeSize => "CODESIZE" | .codeCopy => "CODECOPY"
  | .returnDataSize => "RETURNDATASIZE" | .returnDataCopy => "RETURNDATACOPY"
  | .pop => "POP" | .mload => "MLOAD" | .mstore => "MSTORE"
  | .jump => "JUMP" | .jumpi => "JUMPI" | .gas => "GAS" | .jumpDest => "JUMPDEST"
  | .dup n => "DUP" ++ toString (n.val + 1)
  | .swap n => "SWAP" ++ toString (n.val + 1)
  | .create => "CREATE" | .call => "CALL" | .ret => "RETURN" | .revert => "REVERT"
  | .invalid => "INVALID"

/-- The instruction of a name. -/
def ofName? (s : String) : Option Opcode := all.find? fun o => o.name == s

/-- The instruction of a byte. -/
def ofByte? (b : UInt8) : Option Opcode := all.find? fun o => o.byte == b

end Opcode

end EthBatch.Evm
