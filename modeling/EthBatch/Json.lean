import EthBatch.Number.Numeral
import EthBatch.Platform
import EthBatch.Text.Hex
import EthBatch.Value

/-!
# Reading JSON

A reader for one JSON document. Besides the standard it takes the words `NaN`, `Infinity` and
`-Infinity`; numbers with a fraction or an exponent become floating-point numbers; of equal
keys in an object the last value counts. Blanks are space, tab and the two line ends. Arrays
and objects may stand inside each other as deep as the platform lets them.

The functions take a bound on the number of nested steps. Each step consumes a character or
moves from a container to its first item, so twice the length of the text is enough. `room` is
the number of containers that may still be opened inside each other.
-/

namespace EthBatch.Json

/-- Why a text is no document. -/
inductive Fault where
  | malformed
  | tooManyDigits
  | tooDeep
  deriving DecidableEq, Repr

def isBlank (c : Char) : Bool := c == ' ' || c == '\t' || c == '\n' || c == '\r'

def skip (cs : List Char) : List Char := cs.dropWhile isBlank

/-- The text after a given beginning. -/
def after? : (start cs : List Char) → Option (List Char)
  | [], cs => some cs
  | _ :: _, [] => none
  | a :: start, c :: cs => if a = c then after? start cs else none

/-- The number that four hexadecimal digits denote. -/
def code? : List Char → Option (Nat × List Char)
  | a :: b :: c :: d :: rest => (Hex.toNat? [a, b, c, d]).map (·, rest)
  | _ => none

/-- The character a single letter after a backslash stands for. -/
def escaped? : Char → Option Char
  | '"' => some '"'
  | '\\' => some '\\'
  | '/' => some '/'
  | 'b' => some '\x08'
  | 'f' => some '\x0c'
  | 'n' => some '\n'
  | 'r' => some '\r'
  | 't' => some '\t'
  | _ => none

/-- A coded character; the two halves of a surrogate pair make one. -/
def coded? (cs : List Char) : Option (Char × List Char) := do
  let (n, rest) ← code? cs
  if 0xd800 ≤ n ∧ n < 0xdc00 then
    match after? ['\\', 'u'] rest with
    | some more =>
      match code? more with
      | some (m, rest') =>
        if 0xdc00 ≤ m ∧ m < 0xe000 then
          some (Char.ofNat (0x10000 + (n - 0xd800) * 0x400 + (m - 0xdc00)), rest')
        else some (Char.ofNat 0xfffd, rest)
      | none => none
    | none => some (Char.ofNat 0xfffd, rest)
  else if 0xdc00 ≤ n ∧ n < 0xe000 then some (Char.ofNat 0xfffd, rest)
  else some (Char.ofNat n, rest)

/-- The characters of a string up to its closing quote, and what follows it. -/
def chars? : (fuel : Nat) → List Char → Option (List Char × List Char)
  | 0, _ => none
  | _ + 1, [] => none
  | fuel + 1, c :: rest =>
    if c = '"' then some ([], rest)
    else if c = '\\' then
      match rest with
      | 'u' :: more => do
        let (d, rest') ← coded? more
        let (ds, out) ← chars? fuel rest'
        some (d :: ds, out)
      | e :: more => do
        let d ← escaped? e
        let (ds, out) ← chars? fuel more
        some (d :: ds, out)
      | [] => none
    else if c.toNat < 32 then none
    else (chars? fuel rest).map fun (ds, out) => (c :: ds, out)

def string? (fuel : Nat) (cs : List Char) : Option (String × List Char) :=
  (chars? fuel cs).map fun (ds, rest) => (String.ofList ds, rest)

/-- The fraction of a number: a point and at least one digit. -/
def fraction (cs : List Char) : List Char × List Char :=
  match cs with
  | '.' :: rest =>
    let ds := rest.takeWhile Number.isAsciiDigit
    if ds.isEmpty then ([], cs) else (ds, rest.dropWhile Number.isAsciiDigit)
  | _ => ([], cs)

/-- The exponent of a number: `e`, an optional sign and at least one digit. -/
def exponent (cs : List Char) : Option Int × List Char :=
  match cs with
  | c :: rest =>
    if c == 'e' || c == 'E' then
      let (negative, more) := Number.signed rest
      let ds := more.takeWhile Number.isAsciiDigit
      match ds.isEmpty, Text.natOfDigits? ds with
      | false, some n => (some (if negative then -n else n), more.dropWhile Number.isAsciiDigit)
      | _, _ => (none, cs)
    else (none, cs)
  | [] => (none, cs)

/-- A number; the sign has been read already. -/
def number (negative : Bool) (cs : List Char) : Except Fault (Value × List Char) :=
  let (whole, rest) : List Char × List Char := match cs with
    | '0' :: rest => (['0'], rest)
    | _ => (cs.takeWhile Number.isAsciiDigit, cs.dropWhile Number.isAsciiDigit)
  if whole.isEmpty then .error .malformed
  else
    let (part, rest) := fraction rest
    let (power, rest) := exponent rest
    if part.isEmpty && power.isNone then
      if whole.length > Number.maxDigits then .error .tooManyDigits
      else match Text.natOfDigits? whole with
        | some n => .ok (.int (if negative then -n else n), rest)
        | none => .error .malformed
    else match Text.natOfDigits? (whole ++ part) with
      | some n =>
        .ok (.float (Number.nearest (.finite negative n (power.getD 0 - part.length))), rest)
      | none => .error .malformed

/-- A value that is one word. -/
def word (cs : List Char) : Except Fault (Value × List Char) :=
  let words : List (String × Value) := [
    ("null", .null), ("true", .bool true), ("false", .bool false),
    ("NaN", .float (Number.nearest .undefined)),
    ("Infinity", .float (Number.nearest (.infinite false))),
    ("-Infinity", .float (Number.nearest (.infinite true)))]
  match words.findSome? fun w => (after? w.1.toList cs).map (w.2, ·) with
  | some found => .ok found
  | none =>
    match cs with
    | '-' :: rest => number true rest
    | _ => number false cs

mutual

/-- A value and the text after it. -/
def value : (fuel room : Nat) → List Char → Except Fault (Value × List Char)
  | 0, _, _ => .error .malformed
  | fuel + 1, room, cs =>
    match cs, room with
    | '"' :: rest, _ =>
      match string? fuel rest with
      | some (s, rest) => .ok (.text s, rest)
      | none => .error .malformed
    | '[' :: _, 0 => .error .tooDeep
    | '[' :: rest, room + 1 =>
      match skip rest with
      | ']' :: rest => .ok (.list [], rest)
      | rest => do
        let (vs, rest) ← items fuel room rest
        .ok (.list vs, rest)
    | '\x7b' :: _, 0 => .error .tooDeep
    | '\x7b' :: rest, room + 1 =>
      match skip rest with
      | '\x7d' :: rest => .ok (.record [], rest)
      | rest => do
        let (fs, rest) ← members fuel room rest
        .ok (.record (Fields.ofList fs), rest)
    | cs, _ => word cs

/-- The items of an array up to its closing bracket. -/
def items : (fuel room : Nat) → List Char → Except Fault (List Value × List Char)
  | 0, _, _ => .error .malformed
  | fuel + 1, room, cs => do
    let (v, rest) ← value fuel room (skip cs)
    match skip rest with
    | ',' :: rest => do
      let (vs, rest) ← items fuel room rest
      .ok (v :: vs, rest)
    | ']' :: rest => .ok ([v], rest)
    | _ => .error .malformed

/-- The members of an object up to its closing brace. -/
def members : (fuel room : Nat) → List Char → Except Fault (List (String × Value) × List Char)
  | 0, _, _ => .error .malformed
  | fuel + 1, room, cs =>
    match skip cs with
    | '"' :: rest =>
      match string? fuel rest with
      | none => .error .malformed
      | some (key, rest) =>
        match skip rest with
        | ':' :: rest => do
          let (v, rest) ← value fuel room (skip rest)
          match skip rest with
          | ',' :: rest => do
            let (fs, rest) ← members fuel room rest
            .ok ((key, v) :: fs, rest)
          | '\x7d' :: rest => .ok ([(key, v)], rest)
          | _ => .error .malformed
        | _ => .error .malformed
    | _ => .error .malformed

end

/-- One document with blanks around it and nothing else. -/
def read [Platform] (s : String) : Except Fault Value := do
  let cs := s.toList
  let (v, rest) ← value (2 * cs.length + 2) Platform.jsonDepth (skip cs)
  if (skip rest).isEmpty then .ok v else .error .malformed

end EthBatch.Json
