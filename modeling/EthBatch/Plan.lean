import EthBatch.Fault

/-!
# Packing calls into chunks

Calls are cut, in order, into chunks that stay within a budget of calldata bytes. A chunk is
closed as soon as the next call would exceed the budget; a call that exceeds the budget on its
own still gets a chunk of its own.
-/

namespace EthBatch.Plan

/-- The cost of calldata of a given length. Empty calldata still travels as two characters. -/
def costOfLength (n : Nat) : Nat := max n 2

/-- The cost of calldata in a chunk. -/
def cost (data : Bytes) : Nat := costOfLength data.length

/-- The budget of a chunk. -/
inductive Budget where
  | unlimited
  | limit (bytes : Nat)
  deriving DecidableEq, Repr

/-- A whole budget; zero and less lift the limit. -/
def Budget.ofInt (n : Int) : Budget := if n ≤ 0 then .unlimited else .limit n.toNat

/-- The budget that a number states, by its position. -/
def Budget.ofPosition (p : Number.Position) : Budget :=
  match p.floor? with
  | some n => .limit n.toNat
  | none => .unlimited

/-- The budget that a foreign value states. Whatever counts as false lifts the limit. -/
def Budget.ofValue (v : Value) : Except Fault Budget :=
  if !v.truthy then .ok .unlimited
  else (v.isAbove 0).map fun above =>
    if above then (v.position?.map ofPosition).getD .unlimited else .unlimited

@[simp] theorem Budget.ofValue_int (n : Int) : Budget.ofValue (.int n) = .ok (.ofInt n) := by
  by_cases h : n = 0
  · simp [h, ofValue, ofInt, Value.truthy]
  · by_cases hn : n ≤ 0
    · have : ¬ 0 < n := by omega
      simp [ofValue, ofInt, Value.truthy, h, hn, this, Except.map]
    · have : 0 < n := by omega
      simp [ofValue, ofInt, Value.truthy, h, hn, this, Except.map, Value.position?, ofPosition,
        Number.Position.floor?]

section

variable {α : Type} (cost : α → Nat)

/-- Continues a chunk, given in reverse together with its cost. -/
def packFrom (budget : Nat) : (open_ : List α) → (used : Nat) → List α → List (List α)
  | current, _, [] => [current.reverse]
  | current, used, x :: xs =>
    if !current.isEmpty && budget < used + cost x then
      current.reverse :: packFrom budget [x] (cost x) xs
    else packFrom budget (x :: current) (used + cost x) xs

/-- Cuts calls into chunks within a budget. -/
def pack (budget : Nat) : List α → List (List α)
  | [] => []
  | xs => packFrom cost budget [] 0 xs

/-- The chunks of a list of calls: none for no calls, one without a limit. -/
def chunks (budget : Budget) (xs : List α) : List (List α) :=
  match budget with
  | .limit b => pack cost b xs
  | .unlimited => if xs.isEmpty then [] else [xs]

end

/-- The chunks for a stated budget. Without calls the budget is not looked at. -/
def chunksFor {α : Type} (cost : α → Nat) (budget : Value) (xs : List α) :
    Except Fault (List (List α)) :=
  if xs.isEmpty then .ok [] else (Budget.ofValue budget).map fun b => chunks cost b xs

end EthBatch.Plan
