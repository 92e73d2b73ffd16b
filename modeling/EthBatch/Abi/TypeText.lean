import EthBatch.Number.Numeral

/-!
# Type names and their grammar

A type name is a word or a parenthesised list of types, followed by any number of array
suffixes. `TypeText` is the tree of a name, `TypeText.print` writes it and `TypeText.read?`
reads it back. A word is a run of letters and digits; which words name a type is decided
later, by `Word.split?` and the codec.
-/

namespace EthBatch.Abi

/-- An array suffix: `[]`, or `[n]` for a positive `n`. -/
inductive Suffix where
  | unsized
  | sized (n : Nat)
  deriving DecidableEq, Repr

/-- The tree of a type name. -/
inductive TypeText where
  | word (name : List Char) (suffixes : List Suffix)
  | tuple (items : List TypeText) (suffixes : List Suffix)
  deriving Repr

namespace Suffix

/-- The text of a suffix. -/
def print : Suffix → List Char
  | .unsized => ['[', ']']
  | .sized n => '[' :: Number.digits n ++ [']']

/-- The text of a row of suffixes. -/
def printAll (ss : List Suffix) : List Char := ss.flatMap print

end Suffix

/-- A letter or digit of a word. -/
def isLetter (c : Char) : Bool := ('a' ≤ c && c ≤ 'z') || ('A' ≤ c && c ≤ 'Z')

def isWordChar (c : Char) : Bool := isLetter c || Number.isAsciiDigit c

/-- The number of a size: ASCII digits that do not begin with zero. -/
def size? (cs : List Char) : Option Nat :=
  match cs with
  | [] => none
  | '0' :: _ => none
  | _ => if cs.all Number.isAsciiDigit then Text.natOfDigits? cs else none

namespace TypeText

mutual

/-- The text of a type. -/
def print : TypeText → List Char
  | .word name ss => name ++ Suffix.printAll ss
  | .tuple items ss => '(' :: printItems items ++ ')' :: Suffix.printAll ss

/-- The texts of the items between commas. -/
def printItems : List TypeText → List Char
  | [] => []
  | [t] => print t
  | t :: rest => print t ++ ',' :: printItems rest

end

/-- Reads array suffixes as long as there are any. -/
def suffixes : (fuel : Nat) → List Char → Option (List Suffix × List Char)
  | 0, _ => none
  | fuel + 1, cs =>
    match cs with
    | '[' :: rest =>
      let digits := rest.takeWhile (· ≠ ']')
      match rest.dropWhile (· ≠ ']') with
      | ']' :: more => do
        let s ← if digits.isEmpty then some Suffix.unsized else (size? digits).map Suffix.sized
        let (ss, out) ← suffixes fuel more
        some (s :: ss, out)
      | _ => none
    | _ => some ([], cs)

mutual

/-- Reads one type and gives the rest of the text. The bound counts nested steps. -/
def type? : (fuel : Nat) → List Char → Option (TypeText × List Char)
  | 0, _ => none
  | fuel + 1, cs =>
    match cs with
    | '(' :: rest => do
      let (ts, rest) ← items? fuel rest
      let (ss, rest) ← suffixes (rest.length + 1) rest
      some (.tuple ts ss, rest)
    | _ => do
      let name := cs.takeWhile isWordChar
      if name.isEmpty then none
      let (ss, rest) ← suffixes (cs.length + 1) (cs.dropWhile isWordChar)
      some (.word name ss, rest)

/-- Reads types between commas up to a closing parenthesis. -/
def items? : (fuel : Nat) → List Char → Option (List TypeText × List Char)
  | 0, _ => none
  | fuel + 1, cs => do
    let (t, rest) ← type? fuel cs
    match rest with
    | ',' :: rest => do
      let (ts, rest) ← items? fuel rest
      some (t :: ts, rest)
    | ')' :: rest => some ([t], rest)
    | _ => none

end

/-- Reads a whole text as one type. -/
def read? (cs : List Char) : Option TypeText := do
  let (t, rest) ← type? (2 * cs.length + 2) cs
  if rest.isEmpty then some t else none

end TypeText

/-- The size part of a word. -/
inductive Size where
  | none
  | one (n : Nat)
  | two (m n : Nat)
  deriving DecidableEq, Repr

/-- A word split into its letters and its size. -/
structure Word where
  base : String
  size : Size
  deriving DecidableEq, Repr

namespace Word

/-- Letters, then nothing, a number, or two numbers with `x` between them. -/
def split? (name : List Char) : Option Word :=
  let base := name.takeWhile isLetter
  let rest := name.dropWhile isLetter
  if base.isEmpty then none
  else if rest.isEmpty then some ⟨String.ofList base, .none⟩
  else
    let first := rest.takeWhile (· ≠ 'x')
    match rest.dropWhile (· ≠ 'x') with
    | [] => (size? first).map fun n => ⟨String.ofList base, .one n⟩
    | _ :: second => do
      let m ← size? first
      let n ← size? second
      some ⟨String.ofList base, .two m n⟩

end Word

end EthBatch.Abi
