import EthBatch.Abi.Fault
import EthBatch.Abi.TypeText

/-!
# Types with a codec

`Kind` is a type whose values can be encoded and decoded: the known words with admissible
sizes, and arrays and tuples of them. `Kind.ofText` resolves a type name. Inside an array or
a tuple the short words stand for their full form (`uint` for `uint256`, `byte` for `bytes1`),
and the sizes of all words are checked before any word is looked up.
-/

namespace EthBatch.Abi

/-- A type with a codec. -/
inductive Kind where
  | uint (bits : Nat)
  | int (bits : Nat)
  | bool
  | address
  /-- A fixed-point number with `places` decimals. -/
  | fixed (isSigned : Bool) (bits places : Nat)
  /-- A byte string of exactly `n` bytes, in one word. -/
  | bytesOf (n : Nat)
  | bytes
  | string
  | vector (n : Nat) (item : Kind)
  | array (item : Kind)
  | tuple (items : List Kind)
  deriving Repr, Inhabited

namespace Word

/-- The full form of a short word. -/
def expand (w : Word) : Word :=
  match w.base, w.size with
  | "int", .none => ⟨"int", .one 256⟩
  | "uint", .none => ⟨"uint", .one 256⟩
  | "fixed", .none => ⟨"fixed", .two 128 18⟩
  | "ufixed", .none => ⟨"ufixed", .two 128 18⟩
  | "function", .none => ⟨"bytes", .one 24⟩
  | "byte", .none => ⟨"bytes", .one 1⟩
  | _, _ => w

/-- A width in bits that a number may have. -/
def isWidth (n : Nat) : Bool := 8 ≤ n && n ≤ 256 && n % 8 == 0

/-- Is the size of a word admissible? Unknown words are not judged, with the one exception of
`hash`, which must have a number. -/
def isSized (w : Word) : Bool :=
  match w.base, w.size with
  | "string", .none => true
  | "string", _ => false
  | "bytes", .none => true
  | "bytes", .one n => n ≤ 32
  | "bytes", .two _ _ => false
  | "int", .one n => isWidth n
  | "int", _ => false
  | "uint", .one n => isWidth n
  | "uint", _ => false
  | "fixed", .two m n => isWidth m && 1 ≤ n && n ≤ 80
  | "fixed", _ => false
  | "ufixed", .two m n => isWidth m && 1 ≤ n && n ≤ 80
  | "ufixed", _ => false
  | "hash", .one _ => true
  | "hash", _ => false
  | "address", .none => true
  | "address", _ => false
  | _, _ => true

/-- The type that a word in full form names. A truth value may carry any size. -/
def kind (w : Word) : Except TypeFault Kind :=
  match w.base, w.size with
  | "uint", .one n => if isWidth n then .ok (.uint n) else .error .badSize
  | "int", .one n => if isWidth n then .ok (.int n) else .error .badSize
  | "fixed", .two m n => if w.isSized then .ok (.fixed true m n) else .error .badSize
  | "ufixed", .two m n => if w.isSized then .ok (.fixed false m n) else .error .badSize
  | "bytes", .none => .ok .bytes
  | "bytes", .one n => if n ≤ 32 then .ok (.bytesOf n) else .error .badSize
  | "address", .none => .ok .address
  | "string", .none => .ok .string
  | "bool", _ => .ok .bool
  | "function", _ => .error .sizedAlias
  | base, _ =>
    if base ∈ ["uint", "int", "fixed", "ufixed", "bytes", "address", "string"] then
      .error .badSize
    else .error .unknown

end Word

namespace Kind

/-- Array suffixes apply from left to right. -/
def withSuffixes (k : Kind) (ss : List Suffix) : Kind :=
  ss.foldl (fun k s => match s with
    | .unsized => .array k
    | .sized n => .vector n k) k

mutual

/-- Do all words of a type name split into letters and a size? -/
def isSplit : TypeText → Bool
  | .word name _ => (Word.split? name).isSome
  | .tuple items _ => areSplit items

def areSplit : List TypeText → Bool
  | [] => true
  | t :: ts => isSplit t && areSplit ts

end

mutual

/-- Are the sizes of all words admissible, in their full form? -/
def isSized : TypeText → Bool
  | .word name _ =>
    match Word.split? name with
    | some w => w.expand.isSized
    | none => false
  | .tuple items _ => areSized items

def areSized : List TypeText → Bool
  | [] => true
  | t :: ts => isSized t && areSized ts

end

mutual

/-- The type a tree names, its words taken in their full form. -/
def ofTree : TypeText → Except TypeFault Kind
  | .word name ss =>
    match Word.split? name with
    | some w => w.expand.kind.map (·.withSuffixes ss)
    | none => .error .unparsable
  | .tuple items ss => (ofTrees items).map fun ks => (Kind.tuple ks).withSuffixes ss

def ofTrees : List TypeText → Except TypeFault (List Kind)
  | [] => .ok []
  | t :: ts => do
    let k ← ofTree t
    let ks ← ofTrees ts
    .ok (k :: ks)

end

/-- A bare word is looked up as it stands, and `byte` is not known that way. -/
def ofBareWord (w : Word) : Except TypeFault Kind :=
  if w.base = "byte" then .error .unknown else w.expand.kind

/-- Does a text mention a tuple without components? -/
def mentionsEmptyTuple : List Char → Bool
  | '(' :: ')' :: _ => true
  | _ :: rest => mentionsEmptyTuple rest
  | [] => false

/-- Is there a run of more digits than are read, when so many of them have been passed? -/
def hasLongNumber : (passed : Nat) → List Char → Bool
  | passed, [] => Number.maxDigits < passed
  | passed, c :: rest =>
    if Number.isAsciiDigit c then hasLongNumber (passed + 1) rest
    else Number.maxDigits < passed || hasLongNumber 0 rest

/-- The type that a text names. Its numbers are read once it has been taken apart. -/
def ofChars (cs : List Char) : Except TypeFault Kind :=
  match (TypeText.read? cs).filter isSplit with
  | none => .error (if mentionsEmptyTuple cs then .emptyTuple else .unparsable)
  | some t =>
    if hasLongNumber 0 cs then .error .longNumber
    else match t with
      | .word name [] =>
        match Word.split? name with
        | some w => ofBareWord w
        | none => .error .unparsable
      | t => if isSized t then ofTree t else .error .badSize

/-- The type that a text names. -/
def ofText (s : String) : Except TypeFault Kind := ofChars s.toList

/-- The types of a list of names; the first one that names no type decides. -/
def ofTexts : List String → Except TypeFault (List Kind)
  | [] => .ok []
  | s :: ss => do
    let k ← ofText s
    let ks ← ofTexts ss
    .ok (k :: ks)

mutual

/-- Does the size of an encoding depend on the value? Such values stand behind an offset. -/
def isDynamic : Kind → Bool
  | .bytes => true
  | .string => true
  | .array _ => true
  | .vector _ k => isDynamic k
  | .tuple ks => anyDynamic ks
  | _ => false

def anyDynamic : List Kind → Bool
  | [] => false
  | k :: ks => isDynamic k || anyDynamic ks

end

mutual

/-- The number of bytes of an encoding whose size does not depend on the value. -/
def staticSize : Kind → Nat
  | .vector n k => n * staticSize k
  | .tuple ks => staticSizes ks
  | _ => 32

def staticSizes : List Kind → Nat
  | [] => 0
  | k :: ks => staticSize k + staticSizes ks

end

/-- The number of bytes that a component takes in the head of its container. -/
def headSize (k : Kind) : Nat := if k.isDynamic then 32 else k.staticSize

/-- The number of words that a component counts for when offsets are checked against the end
of the head: a fixed array of static items counts its items, everything else counts one. -/
def headCount (k : Kind) : Nat :=
  match k with
  | .vector n item => if item.isDynamic then 1 else n
  | _ => 1

end Kind

end EthBatch.Abi
