import EthBatch.Bytes
import EthBatch.Evm.Opcode

/-!
# Assembler programs

A program is a list of items: instructions, pushes of numbers or of label offsets, and labels.
`assemble` works in two passes. The first one finds the offset of every label; it needs the
widths of pushes only, and the push of a label is two bytes wide unless stated otherwise. The
second one writes the bytes. A push writes its opcode before its value is looked at, so a width
without an opcode is reported before a value that does not fit.
-/

namespace EthBatch.Evm

/-- What a push puts on the stack. -/
inductive Operand where
  | number (n : Int)
  | label (name : String)
  deriving DecidableEq, Repr

/-- Why a program cannot be assembled. -/
inductive AssemblyFault where
  | duplicateLabel (name : String)
  | undefinedLabel (name : String)
  /-- There is no instruction of this name; it is known when it is a text. -/
  | unknownOpcode (name : Option String)
  /-- Something that cannot be a name stands for an instruction. -/
  | notAName
  /-- What is pushed is neither a number nor a label. -/
  | notPushable
  /-- The stated width of a push is no whole number. -/
  | notAWidth
  /-- There is no push of this width. -/
  | badWidth
  /-- The value is negative or needs more bytes. -/
  | doesNotFit
  deriving DecidableEq, Repr

/-- One item of a program. -/
inductive Item where
  | op (o : Opcode)
  /-- A push, with the number of bytes of its value if the program states one. -/
  | push (value : Operand) (width : Option Int)
  | label (name : String)
  /-- Something without a size, which the first pass refuses. -/
  | sizeless (cause : AssemblyFault)
  /-- Something without code, which the second pass refuses. -/
  | codeless (cause : AssemblyFault)
  deriving DecidableEq, Repr

/-- A program with blocks inside blocks. -/
inductive Program where
  | item (i : Item)
  | block (items : List Program)

instance : Inhabited Program := ⟨.block []⟩

namespace Program

mutual

/-- The items of a program in order. -/
def flatten : Program → List Item
  | .item i => [i]
  | .block ps => flattenAll ps

def flattenAll : List Program → List Item
  | [] => []
  | p :: ps => flatten p ++ flattenAll ps

end

end Program

namespace Item

/-- An instruction by its name. -/
def named (s : String) : Item :=
  match Opcode.ofName? s with
  | some o => .op o
  | none => .codeless (.unknownOpcode (some s))

/-- The least number of bytes that hold a number; zero takes none. -/
def byteLength (n : Nat) : Nat := if n = 0 then 0 else Nat.log2 n / 8 + 1

/-- The number of bytes after the opcode of a push. -/
def pushWidth (value : Operand) (width : Option Int) : Int :=
  match width with
  | some w => w
  | none =>
    match value with
    | .label _ => 2
    | .number n => max 1 (byteLength n.natAbs)

/-- The number of bytes that an item takes in the code. -/
def size : Item → Int
  | .label _ => 0
  | .push value width => 1 + pushWidth value width
  | _ => 1

/-- A label and an instruction to jump to. -/
def jumpDest (name : String) : List Item := [.label name, .op .jumpDest]

end Item

/-- Offsets of labels. -/
abbrev Labels := List (String × Int)

/-- The offsets of the labels of a program that starts at `pc`; a second label of one name is
refused. -/
def layout : List Item → (pc : Int) → Labels → Except AssemblyFault Labels
  | [], _, labels => .ok labels
  | .label name :: items, pc, labels =>
    if (labels.lookup name).isSome then .error (.duplicateLabel name)
    else layout items pc (labels ++ [(name, pc)])
  | .sizeless cause :: _, _, _ => .error cause
  | i :: items, pc, labels => layout items (pc + i.size) labels

/-- The number that a push puts on the stack. -/
def Operand.resolve (labels : Labels) : Operand → Except AssemblyFault Int
  | .number n => .ok n
  | .label name =>
    match labels.lookup name with
    | some pc => .ok pc
    | none => .error (.undefinedLabel name)

/-- The bytes of a push of a number. The opcode of the push of `w` bytes is `0x5f + w`. -/
def pushBytes (n width : Int) : Except AssemblyFault Bytes :=
  if width < 0 || 0xff < 0x5f + width then .error .badWidth
  else if n < 0 || Bytes.capacity width.toNat ≤ n.toNat then .error .doesNotFit
  else .ok (UInt8.ofNat (0x5f + width.toNat) :: Bytes.ofNat width.toNat n.toNat)

/-- The bytes of an item. -/
def Item.bytes (labels : Labels) : Item → Except AssemblyFault Bytes
  | .label _ => .ok []
  | .op o => .ok [o.byte]
  | .sizeless cause => .error cause
  | .codeless cause => .error cause
  | .push value width => do
    let n ← value.resolve labels
    pushBytes n (pushWidth value width)

/-- The bytes of a program whose labels are known. -/
def emit (labels : Labels) : List Item → Except AssemblyFault Bytes
  | [] => .ok []
  | i :: items => do
    let b ← i.bytes labels
    let rest ← emit labels items
    .ok (b ++ rest)

/-- The code of a program. -/
def assemble (items : List Item) : Except AssemblyFault Bytes := do
  let labels ← layout items 0 []
  emit labels items

end EthBatch.Evm
