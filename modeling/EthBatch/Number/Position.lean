import EthBatch.Number.Numeral

/-!
# Numbers among the whole ones

Budgets, limits and block numbers are whole, but a caller may state them by any number. All that
matters of such a number is where it lies among the whole ones: on one of them, between two
neighbours, or beyond all of them. An undefined number lies nowhere.
-/

namespace EthBatch.Number

/-- The place of a number among the whole ones. -/
inductive Position where
  | on (n : Int)
  /-- Between `n` and `n + 1`. -/
  | after (n : Int)
  | beyond (negative : Bool)
  | nowhere
  deriving DecidableEq, Repr

namespace Position

/-- The position of a quotient; the denominator is positive. -/
def ofRatio (num : Int) (den : Nat) : Position :=
  if num % den = 0 then .on (num / den) else .after (num / den)

/-- The position of a magnitude, given as a quotient, with a sign. -/
def ofSigned (negative : Bool) (num den : Nat) : Position :=
  ofRatio (if negative then -num else num) den

/-- The position of a binary64 number. -/
def ofFloat (x : Float) : Position :=
  if x.isNaN then .nowhere
  else if x.isInf then .beyond (x < 0.0)
  else
    let bits := x.toBits.toNat
    let exponent : Nat := bits / Nat.pow 2 52 % Nat.pow 2 11
    let m : Nat := bits % Nat.pow 2 52 + if exponent = 0 then 0 else Nat.pow 2 52
    let q : Int := (if exponent = 0 then 1 else (exponent : Int)) - 1075
    ofSigned (x < 0.0) (m * Nat.pow 2 q.toNat) (Nat.pow 2 (-q).toNat)

/-- The position of a decimal. -/
def ofDecimal : Decimal → Position
  | .finite negative c e => ofSigned negative (c * Nat.pow 10 e.toNat) (Nat.pow 10 (-e).toNat)
  | .infinite negative => .beyond negative
  | .undefined => .nowhere

/-- The largest whole number that is not above the position. -/
def floor? : Position → Option Int
  | .on n => some n
  | .after n => some n
  | _ => none

/-- Is the position above a whole number? -/
def isAbove (p : Position) (n : Int) : Bool :=
  match p with
  | .on m => n < m
  | .after m => n ≤ m
  | .beyond negative => !negative
  | .nowhere => false

end Position

end EthBatch.Number
