import EthBatch.Bytes
import EthBatch.Evm.Opcode

/-!
# Reading code back

A byte between `0x60` and `0x7f` is a push and is followed by its operand; every other byte is
an instruction of its own. Where instructions begin is decided from the start of the code on:
a byte inside an operand begins none, whatever its value. Only an instruction `JUMPDEST` that
begins somewhere can be jumped to.
-/

namespace EthBatch.Evm

/-- The number of operand bytes behind a byte that begins an instruction. -/
def operandSize (b : UInt8) : Nat :=
  if 0x60 ≤ b.toNat && b.toNat ≤ 0x7f then b.toNat - 0x5f else 0

/-- An instruction as it stands in code. -/
inductive Instruction where
  | op (o : Opcode)
  | push (width value : Nat)
  /-- A byte that begins no known instruction. -/
  | unknown (b : UInt8)
  deriving DecidableEq, Repr

namespace Instruction

/-- The instruction that a byte begins, given the code behind it. An operand that the end of
the code cuts off is filled up with zeros. -/
def ofBytes (b : UInt8) (rest : Bytes) : Instruction :=
  match operandSize b with
  | 0 =>
    match Opcode.ofByte? b with
    | some o => .op o
    | none => .unknown b
  | width =>
    let operand := rest.take width
    .push width (Bytes.toNat (operand ++ Bytes.zeros (width - operand.length)))

/-- The instruction at an offset. Behind the end of the code the machine stops. -/
def fetch (code : Bytes) (pc : Nat) : Instruction :=
  match code.drop pc with
  | [] => .op .stop
  | b :: rest => ofBytes b rest

/-- The number of bytes of an instruction. -/
def size : Instruction → Nat
  | .push width _ => 1 + width
  | _ => 1

end Instruction

/-- The instructions in code, after the given number of operand bytes. -/
def disassembleAfter : (skipped : Nat) → Bytes → List Instruction
  | _, [] => []
  | 0, b :: rest => .ofBytes b rest :: disassembleAfter (operandSize b) rest
  | n + 1, _ :: rest => disassembleAfter n rest

/-- The instructions in code. -/
def disassemble (code : Bytes) : List Instruction := disassembleAfter 0 code

/-- The offsets at which instructions begin, in code at `pc` after the given number of operand
bytes. -/
def startsAfter : (skipped pc : Nat) → Bytes → List Nat
  | _, _, [] => []
  | 0, pc, b :: rest => pc :: startsAfter (operandSize b) (pc + 1) rest
  | n + 1, pc, _ :: rest => startsAfter n (pc + 1) rest

/-- The offsets at which instructions begin. -/
def starts (code : Bytes) : List Nat := startsAfter 0 0 code

/-- May a jump lead to the offset? -/
def isJumpTarget (code : Bytes) (pc : Nat) : Bool :=
  (starts code).contains pc && Instruction.fetch code pc == .op .jumpDest

theorem mem_startsAfter_le {n pc i : Nat} {code : Bytes} (h : i ∈ startsAfter n pc code) :
    pc ≤ i ∧ i < pc + code.length := by
  induction code generalizing n pc with
  | nil => cases n <;> simp [startsAfter] at h
  | cons b rest ih =>
    cases n with
    | zero =>
      simp only [startsAfter, List.mem_cons] at h
      rcases h with rfl | h
      · simp
      · have := ih h
        simp only [List.length_cons]
        omega
    | succ n =>
      have := ih (by simpa [startsAfter] using h)
      simp only [List.length_cons]
      omega

/-- Instructions begin inside the code. -/
theorem lt_length_of_mem_starts {code : Bytes} {i : Nat} (h : i ∈ starts code) :
    i < code.length := by
  have := mem_startsAfter_le h
  omega

end EthBatch.Evm
