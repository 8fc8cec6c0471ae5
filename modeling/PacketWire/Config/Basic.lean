/-
The settings of the codec and of its logging, and the rules for sound ones.

`problems` lists what is wrong with a configuration, the codec's settings
first; `check` refuses one that has any.
-/
import PacketWire.Buffer.Basic
import PacketWire.Log.Level
import PacketWire.Text.Utf8

namespace PacketWire

open Text

/-- The smallest payload ceiling that is accepted. -/
def minPayloadSize : Nat := 64

structure CodecConfig where
  /-- The ceiling on one packet's payload, in bytes. -/
  maxPayloadSize : Nat
  /-- Inbound payloads are dumped to the log. -/
  dumpInbound : Bool
  /-- A schema that leaves bytes unread is reported. -/
  warnOnTrailingBytes : Bool
deriving DecidableEq

structure LoggingConfig where
  /-- The application's name in logs. -/
  appName : String
  /-- The most verbose level that is kept. -/
  logLevel : Level
  /-- Packet dumps are kept whatever the level. -/
  packetTrace : Bool
  /-- Log records are written as JSON. -/
  jsonFormat : Bool
deriving DecidableEq

structure Config where
  codec : CodecConfig
  logging : LoggingConfig
deriving DecidableEq

/-! ## Defaults -/

def CodecConfig.default : CodecConfig := ⟨PacketWire.maxPayloadSize, false, true⟩

def LoggingConfig.default : LoggingConfig := ⟨"world-protocol", .info, false, false⟩

def Config.default : Config := ⟨.default, .default⟩

/-! ## Soundness -/

/-- What can be wrong with a setting. -/
inductive Problem
  | noPayload
  | payloadTooSmall (size : Nat)
  | payloadTooLarge (size : Nat)
  | namelessApplication
  /-- The name's length in bytes. -/
  | nameTooLong (length : Nat)
deriving DecidableEq

def Problem.message : Problem → String
  | noPayload => "Max payload size cannot be 0"
  | payloadTooSmall size =>
    s!"Max payload size too small: {size} bytes (minimum: {minPayloadSize})"
  | payloadTooLarge size =>
    s!"Max payload size too large: {size} bytes (maximum: {maxPayloadSize})"
  | namelessApplication => "Application name cannot be empty"
  | nameTooLong length => s!"Application name too long: {length} characters (maximum: 64)"

def CodecConfig.problems (c : CodecConfig) : List Problem :=
  if c.maxPayloadSize = 0 then [.noPayload]
  else if c.maxPayloadSize < minPayloadSize then [.payloadTooSmall c.maxPayloadSize]
  else if PacketWire.maxPayloadSize < c.maxPayloadSize then [.payloadTooLarge c.maxPayloadSize]
  else []

def LoggingConfig.problems (c : LoggingConfig) : List Problem :=
  let length := (Utf8.encode c.appName).length
  if length = 0 then [.namelessApplication]
  else if 64 < length then [.nameTooLong length]
  else []

namespace Config

def problems (c : Config) : List Problem := c.codec.problems ++ c.logging.problems

/-- Refuses a configuration with problems and lists them all. -/
def check (c : Config) : Except CodecError Unit :=
  match c.problems with
  | [] => .ok ()
  | problems =>
    .error (.config ("Configuration validation failed:\n  - " ++
      "\n  - ".intercalate (problems.map Problem.message)))

end Config

/-! ## Filters -/

/-- The name of the channel that packet dumps go to. -/
def networkChannel : String := "network"

/-- The log filter of the settings, in the notation of filters. -/
def LoggingConfig.directive (c : LoggingConfig) : String :=
  if c.packetTrace then s!"{c.logLevel.lowerName},{networkChannel}=trace" else c.logLevel.lowerName

end PacketWire
