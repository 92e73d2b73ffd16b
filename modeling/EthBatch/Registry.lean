import EthBatch.Chain
import EthBatch.Fault

/-!
# Registries of aggregator contracts

A registry says, for a chain, where its aggregator contract lives and in which block it was
created. Registries are values: adding an entry gives a new registry. An entry that is added
has a checked address. The entries with which a registry starts are taken as they are: whatever
is filed under something that names no chain is counted, and never found.
-/

namespace EthBatch

/-- The aggregator contract of a chain. -/
structure Deployment where
  address : Value
  /-- The block of its creation, or nothing if it is not known. -/
  created : Value

/-- Was the contract created after a block? -/
def Deployment.isCreatedAfter (d : Deployment) (block : Int) : Except Fault Bool :=
  match d.created with
  | .null => .ok false
  | v => v.isAbove block

namespace Registry

/-- What an entry is filed under: the number of a chain, or the written form of something
else. -/
inductive Key where
  | chain (number : Int)
  | other (form : String)
  deriving DecidableEq, Repr

/-- The key that a value makes. A number that is whole is the number of a chain, in whatever
form it is given. -/
def Key.ofValue (v : Value) : Except Fault Key :=
  match v.position? with
  | some (.on n) => .ok (.chain n)
  | _ => if v.isFixed then .ok (.other v.written) else .error .wrongKind

end Registry

/-- Deployments by key. A later entry for a key takes the place of an earlier one. -/
structure Registry where
  entries : List (Registry.Key × Deployment)

namespace Registry

def empty : Registry := ⟨[]⟩

/-- The deployment on a chain, by its number. -/
def lookup (r : Registry) (chain : Int) : Option Deployment := r.entries.lookup (.chain chain)

/-- Sets the entry of a key: in its place if there is one, at the end otherwise. -/
def setEntry : List (Key × Deployment) → Key → Deployment → List (Key × Deployment)
  | [], key, d => [(key, d)]
  | (k, old) :: rest, key, d =>
    if k = key then (k, d) :: rest else (k, old) :: setEntry rest key d

/-- A registry with one entry more, or another one for its key. -/
def insert (r : Registry) (key : Key) (d : Deployment) : Registry := ⟨setEntry r.entries key d⟩

/-- A registry of given entries; of two for one key the later one counts. -/
def ofList (entries : List (Key × Deployment)) : Registry :=
  entries.foldl (fun r e => r.insert e.1 e.2) empty

/-- A registry of entries whose keys are given in any form. -/
def ofValues (entries : List (Value × Deployment)) : Except Fault Registry :=
  (entries.mapM fun e => (Key.ofValue e.1).map fun k => (k, e.2)).map ofList

/-- The number of entries. -/
def size (r : Registry) : Nat := r.entries.length

theorem lookup_setEntry_self (entries : List (Key × Deployment)) (key : Key) (d : Deployment) :
    (setEntry entries key d).lookup key = some d := by
  induction entries with
  | nil => simp [setEntry]
  | cons e entries ih =>
    obtain ⟨k, old⟩ := e
    by_cases h : k = key
    · simp [setEntry, h]
    · have h' : (key == k) = false := by simpa using fun e => h e.symm
      simpa [setEntry, h, List.lookup_cons, h'] using ih

theorem lookup_setEntry_of_ne (entries : List (Key × Deployment)) {key other : Key}
    (d : Deployment) (h : other ≠ key) :
    (setEntry entries key d).lookup other = entries.lookup other := by
  induction entries with
  | nil => simp [setEntry, h]
  | cons e entries ih =>
    obtain ⟨k, old⟩ := e
    by_cases hk : k = key
    · subst hk
      have h' : (other == k) = false := by simpa using h
      simp [setEntry, List.lookup_cons, h']
    · simp [setEntry, List.lookup_cons, hk, ih]

theorem lookup_insert_self (r : Registry) (chain : Int) (d : Deployment) :
    (r.insert (.chain chain) d).lookup chain = some d :=
  lookup_setEntry_self r.entries _ d

theorem lookup_insert_of_ne (r : Registry) {chain other : Int} (d : Deployment)
    (h : other ≠ chain) : (r.insert (.chain chain) d).lookup other = r.lookup other :=
  lookup_setEntry_of_ne r.entries d (by simpa using h)

/-- The deployment on a chain given in any form. -/
def get (r : Registry) (chain : Value) : Except Fault (Option Deployment) :=
  (Chain.number chain).map r.lookup

/-- Is there a deployment on the chain? -/
def contains (r : Registry) (chain : Value) : Except Fault Bool :=
  (r.get chain).map Option.isSome

/-- A registry with an entry for a chain given in any form. The address is checked first; the
block is taken as it is. -/
def withContract (r : Registry) (chain address created : Value) : Except Fault Registry := do
  let address ← Address.ofValue address
  let chain ← Chain.number chain
  .ok (r.insert (.chain chain) ⟨.text address.text, created⟩)

/-- The address at which the common aggregator contract lives on every chain. -/
def commonAddress : String := "0xcA11bde05977b3631167028862bE2a173976CA11"

/-- The blocks in which the common contract was created. -/
def creationBlocks : List (Int × Int) := [
  (1, 14353601), (10, 4286263), (56, 15921452), (137, 25770160), (8453, 5022),
  (42161, 7654707), (43114, 11907934), (11155111, 751532)]

/-- The registry of the common contract. -/
def default : Registry :=
  ⟨creationBlocks.map fun (chain, block) => (.chain chain, ⟨.text commonAddress, .int block⟩)⟩

end Registry

end EthBatch
