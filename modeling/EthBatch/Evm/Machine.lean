import EthBatch.Evm.Disassembly

/-!
# The machine

A machine runs code on calldata. It has a stack of 256-bit words, a memory of zeros that grows
as it is used, and the data that the last call returned; gas does not run out. What other
contracts answer comes from an oracle, which sees everything that has happened before. A run
ends with data that are returned or reverted, with a stop, or with a failure of the machine
itself: too few or too many items on the stack, a jump to a place that is no target, data read
behind the end of what a call returned, or a byte that is no instruction.
-/

namespace EthBatch.Evm

/-- A word of the machine. -/
abbrev Word := BitVec 256

/-- A word for a truth value. -/
def Word.ofBool (b : Bool) : Word := if b then 1 else 0

/-- The part of a word that is an address. -/
def Word.account (w : Word) : Word := (w.setWidth 160).setWidth 256

/-- Bytes of a byte string from an offset on, with zeros behind its end. -/
def window (data : Bytes) (start length : Nat) : Bytes :=
  let found := (data.drop start).take length
  found ++ Bytes.zeros (length - found.length)

/-! ## Memory -/

/-- The bytes of the memory by offset. -/
abbrev Memory := Nat → UInt8

namespace Memory

/-- A memory that has not been written to. -/
def blank : Memory := fun _ => 0

/-- Bytes from an offset on. -/
def read (m : Memory) (start length : Nat) : Bytes :=
  (List.range length).map fun i => m (start + i)

/-- A memory with bytes written from an offset on. -/
def write (m : Memory) (start : Nat) (data : Bytes) : Memory := fun i =>
  if start ≤ i then (data[i - start]?).getD (m i) else m i

/-- The word at an offset. -/
def readWord (m : Memory) (start : Nat) : Word := BitVec.ofNat 256 (Bytes.toNat (m.read start 32))

/-- A memory with a word written at an offset. -/
def writeWord (m : Memory) (start : Nat) (w : Word) : Memory := m.write start (Bytes.word w.toNat)

@[simp] theorem length_read (m : Memory) (start length : Nat) :
    (m.read start length).length = length := by
  simp [read]

/-- What was written can be read back. -/
theorem read_write (m : Memory) (start : Nat) (data : Bytes) :
    (m.write start data).read start data.length = data := by
  apply List.ext_getElem
  · simp
  · intro i h₁ h₂
    simp [read, write, h₂]

/-- Writing leaves all else alone. -/
theorem write_apply_of_not_mem (m : Memory) {start i : Nat} {data : Bytes}
    (h : i < start ∨ start + data.length ≤ i) : m.write start data i = m i := by
  unfold write
  rcases h with h | h
  · rw [if_neg (by omega)]
  · rw [if_pos (by omega), List.getElem?_eq_none (by omega)]
    rfl

end Memory

/-! ## Other contracts -/

/-- Something that a machine did to other contracts, with what came of it. -/
inductive Event where
  | call (account value : Word) (input : Bytes) (success : Bool) (output : Bytes)
  | create (value : Word) (code : Bytes) (account : Word)
  deriving DecidableEq, Repr

/-- What other contracts answer, given everything that happened before. A call succeeds or not
and gives data; a creation gives an address, or zero and the data of its failure. -/
structure Oracle where
  call : List Event → (account value : Word) → (input : Bytes) → Bool × Bytes
  create : List Event → (value : Word) → (code : Bytes) → Word × Bytes

/-! ## Steps -/

/-- A machine: what does not change during a run. -/
structure Machine where
  code : Bytes
  calldata : Bytes
  oracle : Oracle

/-- What changes during a run. -/
structure State where
  pc : Nat
  stack : List Word
  memory : Memory
  /-- The data that the last call returned. -/
  returnData : Bytes
  /-- What happened so far, in order. -/
  history : List Event

/-- How a run ends. -/
inductive Halt where
  | stopped
  | returned (data : Bytes)
  | reverted (data : Bytes)
  | failed
  deriving DecidableEq, Repr

/-- What a step leads to. -/
inductive Progress where
  | running (s : State)
  | halted (h : Halt) (history : List Event)

/-- The largest number of items on the stack. -/
def stackLimit : Nat := 1024

namespace State

/-- The state at the start of a run. -/
def start : State := ⟨0, [], .blank, [], []⟩

/-- A run that ends here. -/
def halt (s : State) (h : Halt) : Progress := .halted h s.history

/-- Goes on behind an instruction of one byte with another stack. -/
def next (s : State) (stack : List Word) : Progress := .running { s with pc := s.pc + 1, stack }

/-- An instruction that puts a word on the stack. -/
def push (s : State) (w : Word) : Progress := s.next (w :: s.stack)

/-- An instruction on the top of the stack. -/
def unary (s : State) (f : Word → Word) : Progress :=
  match s.stack with
  | a :: rest => s.next (f a :: rest)
  | _ => s.halt .failed

/-- An instruction on the two topmost items. -/
def binary (s : State) (f : Word → Word → Word) : Progress :=
  match s.stack with
  | a :: b :: rest => s.next (f a b :: rest)
  | _ => s.halt .failed

/-- Copies data to the memory: the stack holds where to, and behind it two words for the
data. -/
def copy (s : State) (data : Nat → Nat → Option Bytes) : Progress :=
  match s.stack with
  | target :: start :: length :: rest =>
    match data start.toNat length.toNat with
    | some b =>
      .running { s with pc := s.pc + 1, stack := rest, memory := s.memory.write target.toNat b }
    | none => s.halt .failed
  | _ => s.halt .failed

/-- Ends a run with data from the memory. -/
def finish (s : State) (h : Bytes → Halt) : Progress :=
  match s.stack with
  | start :: length :: _ => s.halt (h (s.memory.read start.toNat length.toNat))
  | _ => s.halt .failed

end State

namespace Machine

/-- Data of the last call; there must be enough of them. -/
def returned? (s : State) (start length : Nat) : Option Bytes :=
  if start + length ≤ s.returnData.length then some ((s.returnData.drop start).take length)
  else none

/-- Goes on at a jump target. -/
def jumpTo (m : Machine) (s : State) (target : Word) (stack : List Word) : Progress :=
  if isJumpTarget m.code target.toNat then .running { s with pc := target.toNat, stack }
  else s.halt .failed

/-- Creates a contract. -/
def create (m : Machine) (s : State) : Progress :=
  match s.stack with
  | value :: start :: length :: rest =>
    let code := s.memory.read start.toNat length.toNat
    let (account, output) := m.oracle.create s.history value code
    .running { s with
      pc := s.pc + 1
      stack := account :: rest
      returnData := if account = 0 then output else []
      history := s.history ++ [.create value code account] }
  | _ => s.halt .failed

/-- Calls a contract. As much of its output as there is room for goes to the memory. -/
def call (m : Machine) (s : State) : Progress :=
  match s.stack with
  | _ :: target :: value :: start :: length :: outStart :: outLength :: rest =>
    let input := s.memory.read start.toNat length.toNat
    let account := target.account
    let (success, output) := m.oracle.call s.history account value input
    .running { s with
      pc := s.pc + 1
      stack := .ofBool success :: rest
      memory := s.memory.write outStart.toNat (output.take outLength.toNat)
      returnData := output
      history := s.history ++ [.call account value input success output] }
  | _ => s.halt .failed

/-- Runs an instruction without an operand. -/
def execute (m : Machine) (s : State) : Opcode → Progress
  | .stop => s.halt .stopped
  | .add => s.binary (· + ·)
  | .mul => s.binary (· * ·)
  | .sub => s.binary (· - ·)
  | .div => s.binary (· / ·)
  | .lt => s.binary fun a b => .ofBool (a.ult b)
  | .gt => s.binary fun a b => .ofBool (b.ult a)
  | .eq => s.binary fun a b => .ofBool (a == b)
  | .isZero => s.unary fun a => .ofBool (a == 0)
  | .and => s.binary (· &&& ·)
  | .or => s.binary (· ||| ·)
  | .not => s.unary (~~~ ·)
  | .calldataLoad =>
    s.unary fun a => BitVec.ofNat 256 (Bytes.toNat (window m.calldata a.toNat 32))
  | .calldataSize => s.push (BitVec.ofNat 256 m.calldata.length)
  | .calldataCopy => s.copy fun start length => some (window m.calldata start length)
  | .codeSize => s.push (BitVec.ofNat 256 m.code.length)
  | .codeCopy => s.copy fun start length => some (window m.code start length)
  | .returnDataSize => s.push (BitVec.ofNat 256 s.returnData.length)
  | .returnDataCopy => s.copy (returned? s)
  | .pop =>
    match s.stack with
    | _ :: rest => s.next rest
    | _ => s.halt .failed
  | .mload => s.unary fun a => s.memory.readWord a.toNat
  | .mstore =>
    match s.stack with
    | a :: w :: rest =>
      .running { s with
        pc := s.pc + 1, stack := rest, memory := s.memory.writeWord a.toNat w }
    | _ => s.halt .failed
  | .jump =>
    match s.stack with
    | target :: rest => m.jumpTo s target rest
    | _ => s.halt .failed
  | .jumpi =>
    match s.stack with
    | target :: condition :: rest =>
      if condition = 0 then s.next rest else m.jumpTo s target rest
    | _ => s.halt .failed
  | .gas => s.push (BitVec.allOnes 256)
  | .jumpDest => s.next s.stack
  | .dup n =>
    match s.stack[n.val]? with
    | some w => s.push w
    | none => s.halt .failed
  | .swap n =>
    match s.stack, s.stack[n.val + 1]? with
    | top :: rest, some w => s.next (w :: rest.set n.val top)
    | _, _ => s.halt .failed
  | .create => m.create s
  | .call => m.call s
  | .ret => s.finish .returned
  | .revert => s.finish .reverted
  | .invalid => s.halt .failed

/-- Runs the instruction at the current offset. -/
def instruction (m : Machine) (s : State) : Progress :=
  match Instruction.fetch m.code s.pc with
  | .op o => m.execute s o
  | .push width value =>
    .running { s with pc := s.pc + 1 + width, stack := BitVec.ofNat 256 value :: s.stack }
  | .unknown _ => s.halt .failed

/-- One step. -/
def step (m : Machine) (s : State) : Progress :=
  match m.instruction s with
  | .running t => if t.stack.length ≤ stackLimit then .running t else t.halt .failed
  | p => p

/-- Runs for a number of steps at most: how the run ended and what happened, if it ended. -/
def run (m : Machine) : (fuel : Nat) → State → Option (Halt × List Event)
  | 0, _ => none
  | fuel + 1, s =>
    match m.step s with
    | .running t => run m fuel t
    | .halted h history => some (h, history)

/-- A run from a state ends in a certain way. -/
def Ends (m : Machine) (s : State) (h : Halt) (history : List Event) : Prop :=
  ∃ fuel, m.run fuel s = some (h, history)

/-- A step may be taken before a run. -/
theorem Ends.of_step {m : Machine} {s t : State} {h : Halt} {history : List Event}
    (step : m.step s = .running t) (ends : m.Ends t h history) : m.Ends s h history := by
  obtain ⟨fuel, ends⟩ := ends
  exact ⟨fuel + 1, by simp [run, step, ends]⟩

/-- A step that halts is a run. -/
theorem Ends.of_halt {m : Machine} {s : State} {h : Halt} {history : List Event}
    (step : m.step s = .halted h history) : m.Ends s h history :=
  ⟨1, by simp [run, step]⟩

/-- More steps do not change how a run ended. -/
theorem run_mono {m : Machine} {fuel more : Nat} {s : State} {r : Halt × List Event}
    (h : m.run fuel s = some r) (le : fuel ≤ more) : m.run more s = some r := by
  induction fuel generalizing more s with
  | zero => simp [run] at h
  | succ fuel ih =>
    obtain ⟨more, rfl⟩ : ∃ k, more = k + 1 := ⟨more - 1, by omega⟩
    simp only [run] at h ⊢
    split at h
    · exact ih h (by omega)
    · exact h

/-- A run ends in one way only. -/
theorem Ends.unique {m : Machine} {s : State} {h h' : Halt} {history history' : List Event}
    (first : m.Ends s h history) (second : m.Ends s h' history') :
    h = h' ∧ history = history' := by
  obtain ⟨a, first⟩ := first
  obtain ⟨b, second⟩ := second
  have first := run_mono first (Nat.le_max_left a b)
  have second := run_mono second (Nat.le_max_right a b)
  rw [first] at second
  simpa using second

end Machine

end EthBatch.Evm
