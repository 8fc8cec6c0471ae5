/-
Settings from environment variables, over the defaults.

Variables are read in a fixed order and the first bad one is reported. A
switch that holds neither `true` nor `false` is passed over.
-/
import PacketWire.Config.Basic
import PacketWire.Config.Failure

namespace PacketWire.Config

open Text

def maxPayloadSizeVariable : String := "WORLD_PROTOCOL_MAX_PAYLOAD_SIZE"
def dumpInboundVariable : String := "WORLD_PROTOCOL_DUMP_INBOUND"
def logLevelVariable : String := "WORLD_PROTOCOL_LOG_LEVEL"
def packetTraceVariable : String := "WORLD_PROTOCOL_PACKET_TRACE"

/-- The value of a switch, or what it was. -/
def switch (text : Option String) (old : Bool) : Bool :=
  match text with
  | some "true" => true
  | some "false" => false
  | _ => old

/-- The payload ceiling that a variable asks for, or what it was. -/
def readSize (text : Option String) (old : Nat) : Except ConfigFailure Nat :=
  match text with
  | none => .ok old
  | some text => (Unsigned.read64 text).mapError (.badNumber maxPayloadSizeVariable)

/-- The level that a variable asks for, or what it was. -/
def readLevel (text : Option String) (old : Level) : Except ConfigFailure Level :=
  match text with
  | none => .ok old
  | some text =>
    match Level.ofText? text with
    | some level => .ok level
    | none => .error (.unknownLevel text)

/-- The defaults changed by the variables that are set. -/
def ofEnvironment (setting? : String → Option String) : Except ConfigFailure Config := do
  let codec := CodecConfig.default
  let logging := LoggingConfig.default
  let maxPayloadSize ← readSize (setting? maxPayloadSizeVariable) codec.maxPayloadSize
  let logLevel ← readLevel (setting? logLevelVariable) logging.logLevel
  return {
    codec := { codec with
      maxPayloadSize
      dumpInbound := switch (setting? dumpInboundVariable) codec.dumpInbound }
    logging := { logging with
      logLevel
      packetTrace := switch (setting? packetTraceVariable) logging.packetTrace } }

end PacketWire.Config
