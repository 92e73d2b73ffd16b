import EthBatch.Evm.Program
import EthBatch.Value

/-!
# Items given as values

A program that a caller hands in names its instructions and states its pushes by values of any
kind. Here each of them becomes an item; what cannot be one becomes an item that is refused in
the pass in which it is first used.
-/

namespace EthBatch.Evm.Item

/-- The instruction that a value names. -/
def ofValue (v : Value) : Item :=
  match v with
  | .text s => named s
  | v => .codeless (if v.isFixed then .unknownOpcode none else .notAName)

/-- What a value pushes, if it can be pushed. -/
def operand? : Value → Option Operand
  | .text name => some (.label name)
  | v => v.number?.map .number

/-- A push of a value with a stated width, if one is stated. Without one the value itself must
have a width. A width that is a number but no whole one is refused only when the code is
written; so is a value of the wrong kind with a width, whose opcode is written before. -/
def pushOf (v width : Value) : Item :=
  match operand? v, width.given? with
  | some o, none => .push o none
  | none, none => .sizeless .notPushable
  | o, some w =>
    match o, w.number?, w.position? with
    | some o, some n, _ => .push o (some n)
    | none, some n, _ =>
      .codeless (if 0x5f + n < 0 || 0xff < 0x5f + n then .badWidth else .notPushable)
    | _, none, some _ => .codeless .notAWidth
    | _, none, none => .sizeless .notAWidth

end EthBatch.Evm.Item
