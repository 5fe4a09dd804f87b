import PathSearch.Text.Basic

namespace PathSearch

/-- How much a log record matters, from least to most. -/
inductive Level where
  | trace
  | debug
  | info
  | warning
  deriving DecidableEq, Repr

namespace Level

def rank : Level → Nat
  | .trace => 5
  | .debug => 10
  | .info => 20
  | .warning => 30

def name : Level → String
  | .trace => "TRACE"
  | .debug => "DEBUG"
  | .info => "INFO"
  | .warning => "WARNING"

end Level

/-- The part of a search that writes a log record. -/
inductive Reporter where
  | filters
  | scans
  | merge
  | config
  deriving DecidableEq, Repr

namespace Reporter

def name : Reporter → String
  | .filters => "pipeline"
  | .scans => "traversal"
  | .merge => "aggregator"
  | .config => "config"

end Reporter

/-- A log record; `withCause` marks one that carries the error it reports. -/
structure LogRecord where
  level : Level
  reporter : Reporter
  message : String
  withCause : Bool := false
  deriving DecidableEq, Repr

namespace LogRecord

def visibleAt (level : Level) (records : List LogRecord) : List LogRecord :=
  records.filter fun record => level.rank ≤ record.level.rank

end LogRecord

end PathSearch
