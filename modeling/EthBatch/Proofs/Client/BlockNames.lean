import EthBatch.Proofs.Client.Run

/-!
# Runs at two names of one block

The waiting for chunks does not look at their requests. So if a node makes no difference between
two names of a block, and neither does the choice of the destination, a run at the one name and a
run at the other differ only in the name that their requests carry.
-/

namespace EthBatch

/-- A request at a block. -/
def Request.withBlock (block : Value) (q : Request) : Request := { q with block }

/-- Options for a block. -/
def CallOptions.withBlock (block : Value) (o : CallOptions) : CallOptions := { o with block }

/-- A run with its requests at a block. -/
def Run.withBlock (block : Value) (run : Run) : Run :=
  { run with requests := run.requests.map fun p => (p.1, p.2.withBlock block) }

namespace Schedule

/-! ## Waiting -/

variable (f : Request → Request)

end Schedule

namespace Client

variable {c : Client} {node : Node} {b b' : Value}

end Client

end EthBatch
