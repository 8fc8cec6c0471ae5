/-
Installing the process's logger.

A process has one logger. Installing it announces the application at level
`info`; a second one is refused. Once installed it keeps the levels of its
settings, and on the network channel every level if packets are traced.
-/
import PacketWire.Config.Basic

namespace PacketWire

/-- The channel of a log record. -/
inductive Channel
  | network
  | other
deriving DecidableEq

/-- Records of this level and channel are kept. -/
def LoggingConfig.enabled (c : LoggingConfig) (channel : Channel) (l : Level) : Bool :=
  c.logLevel.enables l || (c.packetTrace && channel = .network)

/-- Packet dumps are kept. -/
def LoggingConfig.dumpsEnabled (c : LoggingConfig) : Bool := c.enabled .network .trace

/-- A line that a logger prints. -/
inductive LogLine
  /-- A line of a record in human-readable form. -/
  | plain
  /-- A record with its level, its target and its fields. -/
  | structured (level : Level) (target : String) (fields : List (String × String))
deriving DecidableEq

/-- The target of the logger's own records. -/
def loggerTarget : String := "world_protocol::utils::logging"

/-- The lines of a readable record that shows `text`: a record ends with a line
feed of its own, and those of the text are printed as they are. -/
def LogLine.readable (text : String) : List LogLine :=
  List.replicate (text.toList.count '\n' + 1) .plain

/-- What installing the logger prints. A structured record escapes the name's
line feeds and takes one line whatever the name. -/
def LoggingConfig.announcement (c : LoggingConfig) : List LogLine :=
  if c.enabled .other .info then
    if c.jsonFormat then
      [.structured .info loggerTarget [("message", "Logging initialized"), ("app", c.appName)]]
    else LogLine.readable c.appName
  else []

/-- The installed logger after an attempt to install one with these settings. -/
def LoggingConfig.install (c : LoggingConfig) (installed : Option LoggingConfig) :
    Except CodecError LoggingConfig :=
  match installed with
  | none => .ok c
  | some _ => .error (.config ("Failed to install subscriber: " ++
      "a global default trace dispatcher has already been set"))

end PacketWire
