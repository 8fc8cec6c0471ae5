/-
How verbose a log record is, and the names that levels go by.
-/
import PacketWire.Text.Unsigned

namespace PacketWire

open Text

inductive Level
  | error
  | warn
  | info
  | debug
  | trace
deriving DecidableEq

namespace Level

/-- All levels, the most severe first. -/
def all : List Level := [error, warn, info, debug, trace]

/-- The more verbose, the higher. -/
def rank : Level → Nat
  | error => 1
  | warn => 2
  | info => 3
  | debug => 4
  | trace => 5

/-- Records of level `l` are kept when the most verbose level kept is `most`. -/
def enables (most l : Level) : Bool := l.rank ≤ most.rank

/-- The name in log records. -/
def name : Level → String
  | error => "ERROR"
  | warn => "WARN"
  | info => "INFO"
  | debug => "DEBUG"
  | trace => "TRACE"

/-- The name in configurations and filters. -/
def lowerName : Level → String
  | error => "error"
  | warn => "warn"
  | info => "info"
  | debug => "debug"
  | trace => "trace"

/-- The level that a text names: its name in any case, or its rank as an
unsigned number. -/
def ofText? (text : String) : Option Level :=
  match Unsigned.read64 text with
  | .ok rank => all.find? (·.rank = rank)
  | .error _ => all.find? fun l => l.lowerName.toList = text.toList.map Char.toLower

end Level

end PacketWire
