/-!
# Faults of settings

A setting can be refused for a number of reasons, each of which has a code. All refused
settings are reported together, in the order of the fields.
-/

namespace EthBatch.Settings

/-- Why the value of a setting was refused. -/
inductive Problem where
  | intParsing
  | intParsingSize
  | intType
  | intFromFloat
  | finiteNumber
  | boolParsing
  | boolType
  | floatParsing
  | floatType
  | stringType
  | stringUnicode
  | notAddress
  | notHex
  | notPositive
  deriving DecidableEq, Repr

namespace Problem

/-- The code of a problem. -/
def code : Problem → String
  | .intParsing => "int_parsing"
  | .intParsingSize => "int_parsing_size"
  | .intType => "int_type"
  | .intFromFloat => "int_from_float"
  | .finiteNumber => "finite_number"
  | .boolParsing => "bool_parsing"
  | .boolType => "bool_type"
  | .floatParsing => "float_parsing"
  | .floatType => "float_type"
  | .stringType => "string_type"
  | .stringUnicode => "string_unicode"
  | .notAddress => "value_error"
  | .notHex => "value_error"
  | .notPositive => "value_error"

/-- The wording of the problems that have one. -/
def message? : Problem → Option String
  | .notHex => some "bytecode must be a hex string"
  | .notPositive => some "timeout must be positive"
  | _ => none

end Problem

/-- A refused setting. -/
structure FieldFault where
  field : String
  problem : Problem
  deriving DecidableEq, Repr

end EthBatch.Settings
