import EthBatch.Number.Numeral
import EthBatch.Settings.Fault
import EthBatch.Fault

/-!
# Reading one setting

A setting is read leniently: whole numbers also from truth values, whole floating-point numbers
and texts; truth values also from zero, one and a few words; floating-point numbers also from
whole numbers and texts. Byte strings count as the texts they encode; where a text is wanted,
this holds also of bytes that their owner may still change.
-/

namespace EthBatch.Settings.Field

/-- The text of a value that is a text or encodes one. The problem is the one to report for
bytes that encode none. -/
def text? (onBadBytes : Problem) : Value → Except Problem (Option String)
  | .text s => .ok (some s)
  | .bytes b =>
    match Text.Utf8.decode? b with
    | some s => .ok (some s)
    | none => .error onBadBytes
  | _ => .ok none

/-- A text without single underscores that stand inside it, if there are any and no other
ones. -/
def withoutUnderscores? (cs : List Char) : Option (List Char) :=
  if cs.head? = some '_' || cs.getLast? = some '_' || doubled cs || !cs.contains '_' then none
  else some (cs.filter (· ≠ '_'))
where
  /-- Do two underscores stand next to each other? -/
  doubled : List Char → Bool
    | '_' :: '_' :: _ => true
    | _ :: rest => doubled rest
    | [] => false

/-- A text without its leading zeros; underscores among them are dropped too. A zero that only
the end or a point follows stays. Behind the zeros there must be a digit, a point or the end. -/
def dropLeadingZeros? : List Char → Option (List Char)
  | '0' :: rest => go '0' rest
  | cs => some cs
where
  /-- Goes on behind a zero or an underscore. -/
  go (last : Char) : List Char → Option (List Char)
    | '0' :: rest => go '0' rest
    | '_' :: rest => go '_' rest
    | '.' :: rest => some (last :: '.' :: rest)
    | [] => some [last]
    | c :: rest => if Number.isAsciiDigit c then some (c :: rest) else none

/-- A text without a fraction of one or more zeros. -/
def dropZeroFraction (cs : List Char) : List Char :=
  let fraction := (cs.dropWhile (· ≠ '.')).drop 1
  if !fraction.isEmpty && fraction.all (· == '0') then cs.takeWhile (· ≠ '.') else cs

/-- A run of ASCII digits with an optional minus sign. It does not start with a zero, unless
that is all, and its length is limited. -/
def plainInt (cs : List Char) : Except Problem Int :=
  let (negative, digits) := match cs with
    | '-' :: rest => (true, rest)
    | _ => (false, cs)
  let run := digits.takeWhile Number.isAsciiDigit
  if run.head? = some '0' && 1 < run.length then .error .intParsing
  else if Number.maxDigits < run.length then .error .intParsingSize
  else if digits.isEmpty || run.length ≠ digits.length then .error .intParsing
  else match Text.natOfDigits? digits with
    | some n => .ok (if negative then -n else n)
    | none => .error .intParsing

/-- Reads a whole number from text: a sign, of which a minus stands right before a digit other
than zero, leading zeros, digits with single underscores, and a fraction of zeros. -/
def intOfChars (cs : List Char) : Except Problem Int :=
  let body? := match Text.trimBy Text.isSpace cs with
    | '+' :: '-' :: _ => none
    | '+' :: rest => dropLeadingZeros? rest
    | cs => dropLeadingZeros? cs
  match body? with
  | none => .error .intParsing
  | some body =>
    let digits := dropZeroFraction body
    plainInt ((withoutUnderscores? digits).getD digits)

/-- A whole number from the position of another kind of number, which must lie on one. -/
def intOfPosition : Number.Position → Except Problem Int
  | .on n => .ok n
  | .after _ => .error .intFromFloat
  | _ => .error .finiteNumber

/-- A whole number from a floating-point one; it must fit a machine word. -/
def intOfFloat (x : Float) : Except Problem Int := do
  let n ← intOfPosition (.ofFloat x)
  if -Nat.pow 2 63 < n && n < Nat.pow 2 63 then .ok n else .error .intParsingSize

/-- Reads a whole number. -/
def int (v : Value) : Except Problem Int :=
  match v with
  | .bool b => .ok (if b then 1 else 0)
  | .int n => .ok n
  | .float x => intOfFloat x
  | .decimal d => intOfPosition (.ofDecimal d)
  | v => do
    match ← text? .intParsing v with
    | some s => intOfChars s.toList
    | none => .error .intType

/-- The words for the truth values. -/
def falseWords : List String := ["0", "off", "f", "false", "n", "no"]

def trueWords : List String := ["1", "on", "t", "true", "y", "yes"]

/-- Reads a truth value from text. -/
def boolOfText (s : String) : Except Problem Bool :=
  let word := String.ofList (s.toList.map Char.toLower)
  if word ∈ falseWords then .ok false
  else if word ∈ trueWords then .ok true
  else .error .boolParsing

/-- Zero and one as truth values. -/
def boolOfInt (n : Int) : Except Problem Bool :=
  if n = 0 then .ok false else if n = 1 then .ok true else .error .boolParsing

/-- Reads a truth value. -/
def bool (v : Value) : Except Problem Bool :=
  match v with
  | .bool b => .ok b
  | .int n => if -Nat.pow 2 63 ≤ n && n < Nat.pow 2 63 then boolOfInt n else .error .boolType
  | .float x =>
    match intOfFloat x with
    | .ok n => boolOfInt n
    | .error _ => .error .boolType
  | .decimal d =>
    match intOfFloat (Number.nearest d) with
    | .ok n => boolOfInt n
    | .error _ => .error .boolType
  | v => do
    match ← text? .boolParsing v with
    | some s => boolOfText s
    | none => .error .boolType

/-- Reads a floating-point number from text: blanks at its ends or single underscores inside it,
but not both. -/
def floatOfChars (cs : List Char) : Except Problem Float :=
  match Number.numeral? (Text.trimBy Text.isSpace cs) with
  | some d => .ok (Number.nearest d)
  | none =>
    match (withoutUnderscores? cs).bind Number.numeral? with
    | some d => .ok (Number.nearest d)
    | none => .error .floatParsing

/-- Reads a floating-point number. A whole number must be in its range. -/
def float (v : Value) : Except Problem Float :=
  match v with
  | .float x => .ok x
  | .bool b => .ok (if b then 1.0 else 0.0)
  | .int n =>
    let x := Number.nearest (.finite (n < 0) n.natAbs 0)
    if x.isInf then .error .floatType else .ok x
  | .decimal d => .ok (Number.nearest d)
  | v => do
    match ← text? .floatParsing v with
    | some s => floatOfChars s.toList
    | none => .error .floatType

/-- Reads a text. -/
def text (v : Value) : Except Problem String := do
  let v := match v with
    | .buffer b => .bytes b
    | v => v
  match ← text? .stringUnicode v with
  | some s => .ok s
  | none => .error .stringType

/-- Reads something that may be absent. -/
def optional {α : Type} (read : Value → Except Problem α) : Value → Except Problem (Option α)
  | .null => .ok none
  | v => (read v).map some

/-- Reads an address from text. -/
def address (v : Value) : Except Problem Address := do
  let s ← text v
  match Address.ofText? s with
  | some a => .ok a
  | none => .error .notAddress

/-- Hexadecimal text with the mark `0x` in front, which is added if it is not there. -/
def markedHex (s : String) : Except Problem String :=
  if !Hex.isHex s.toList then .error .notHex
  else if ['0', 'x'].isPrefixOf s.toList then .ok s
  else .ok ("0x" ++ s)

/-- Reads bytecode. -/
def bytecode (v : Value) : Except Problem String := do
  let s ← text v
  markedHex s

/-- A duration must be positive. -/
def positive (x : Float) : Except Problem Float :=
  if x ≤ 0.0 then .error .notPositive else .ok x

/-- Reads a duration in seconds. -/
def seconds (v : Value) : Except Problem Float := do
  let x ← float v
  positive x

end EthBatch.Settings.Field
