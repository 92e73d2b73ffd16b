import EthBatch.Log

/-!
# Attaching handlers

Setting up logging attaches a console handler, and a file handler if asked for, to the package
logger, sets its threshold and keeps records from going further up. Loggers that are named as
too talkative are raised to warnings. Doing it twice attaches everything twice.
-/

namespace EthBatch.Log

/-- Where a handler writes. -/
inductive Handler where
  | console
  | file
  deriving DecidableEq, Repr

/-- The handlers of the package logger and the levels that loggers have been given. -/
structure Setup where
  handlers : List Handler
  levels : List (String × Level)

namespace Setup

/-- Nothing is attached and no logger has a level. -/
def blank : Setup := ⟨[], []⟩

/-- Gives a logger a level. -/
def setLevel (s : Setup) (logger : String) (level : Level) : Setup :=
  { s with levels := (logger, level) :: s.levels.filter (·.1 ≠ logger) }

/-- Sets logging up once. -/
def configure (s : Setup) (debug toFile : Bool) (quiet : List String) : Setup :=
  let attached : Setup :=
    { s with handlers := s.handlers ++ .console :: (if toFile then [.file] else []) }
  let ready := attached.setLevel package (if debug then .debug else .info)
  quiet.foldl (fun s name => s.setLevel name .warning) ready

/-- The level of a logger itself. -/
def level? (s : Setup) (logger : String) : Option Level := s.levels.lookup logger

/-- The loggers above a logger, itself first, as the texts up to each point in its name. -/
def ancestors (logger : String) : List String :=
  let cs := logger.toList
  let cuts := (List.range cs.length).filter fun i => cs[i]? == some '.'
  logger :: (cuts.reverse.map fun i => String.ofList (cs.take i))

/-- The least level that a logger lets through: that of the nearest logger above it that has
one. -/
def threshold (s : Setup) (logger : String) : Level :=
  ((ancestors logger).findSome? s.level?).getD .warning

/-- Does a record reach the handlers of the package? -/
def passes (s : Setup) (r : Record) : Bool :=
  isWithin package r.logger && (s.threshold r.logger).severity ≤ r.level.severity

/-- The lines that the handlers of one kind write for records. -/
def lines (s : Setup) (h : Handler) (records : List Record) : List String :=
  (records.filter s.passes).flatMap fun r =>
    (s.handlers.filter (· = h)).map fun _ => line r

end Setup

end EthBatch.Log
