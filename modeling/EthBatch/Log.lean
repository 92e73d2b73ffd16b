/-!
# Log records

The library reports on planning, on chunks that fail and on deadlines to its own loggers. A
program that wants to see the records attaches handlers to the package logger; a handler writes
every record that reaches its threshold, and a file, if there is one, gets the same lines.
-/

namespace EthBatch.Log

/-- Levels in ascending order. -/
inductive Level where
  | debug
  | info
  | warning
  | error
  | critical
  deriving DecidableEq, Repr, Inhabited

namespace Level

def severity : Level → Nat
  | .debug => 10
  | .info => 20
  | .warning => 30
  | .error => 40
  | .critical => 50

def name : Level → String
  | .debug => "DEBUG"
  | .info => "INFO"
  | .warning => "WARNING"
  | .error => "ERROR"
  | .critical => "CRITICAL"

/-- The level of a name. -/
def ofName? (s : String) : Option Level :=
  [Level.debug, .info, .warning, .error, .critical].find? fun l => l.name == s

end Level

/-- One record. -/
structure Record where
  level : Level
  logger : String
  text : String
  deriving DecidableEq, Repr

/-- The logger of the package. -/
def package : String := "multicallkit"

/-- The logger of the client whose requests run in a pool. -/
def poolLogger : String := "multicallkit.multicall"

/-- The logger of the client whose requests run as tasks. -/
def taskLogger : String := "multicallkit.async_multicall"

/-- Is a logger the given one or below it? -/
def isWithin (parent logger : String) : Bool :=
  logger == parent || (parent.toList ++ ['.']).isPrefixOf logger.toList

/-- A line without its time: the level in eight places, the logger and the text. -/
def line (r : Record) : String :=
  let name := r.level.name.toList
  String.ofList (name ++ List.replicate (8 - name.length) ' ') ++ " | " ++ r.logger ++ " | " ++
    r.text

end EthBatch.Log
