/-
What is logged: each occasion with its level, its words and its fields.

An event is kept by a `Journal` only if its level is enabled there; a journal
without a level keeps nothing.
-/
import PacketWire.Log.Level
import PacketWire.Metrics
import PacketWire.Opcode

namespace PacketWire

inductive Event
  | packetDecoded (opcode : Opcode) (size : Nat)
  | packetEncoded (opcode : Opcode) (size : Nat)
  /-- A schema ended after `read` of `size` bytes and left `trailing` of them. -/
  | trailingData (opcode : Opcode) (read size trailing : Nat)
  | unknownOpcode (raw : UInt32)
  | packetDropped (cause : CodecError)
  | handlerFailed (cause : CodecError)
  | replyNotEncoded (cause : CodecError) (opcode : Opcode)
  /-- An inbound payload in readable form. -/
  | payloadDump (text : String)
  | operationCompleted (operation : String)
  | metricsSnapshot (metrics : Metrics)
deriving DecidableEq

/-- The value of a field of a log record. -/
inductive FieldValue
  | text (s : String)
  | number (n : Nat)
deriving DecidableEq

namespace Event

def level : Event → Level
  | packetDecoded .. | packetEncoded .. | operationCompleted _ => .debug
  | trailingData .. | unknownOpcode _ | packetDropped _ | handlerFailed _ | replyNotEncoded .. => .warn
  | payloadDump _ => .trace
  | metricsSnapshot _ => .info

/-- Dumps go to a channel of their own, which a filter can open alone. -/
def onNetworkChannel : Event → Bool
  | payloadDump _ => true
  | _ => false

def message : Event → String
  | packetDecoded .. => "Packet decoded"
  | packetEncoded .. => "Packet encoded"
  | trailingData .. => "Packet has unprocessed tail data"
  | unknownOpcode _ => "Unknown client opcode"
  | packetDropped _ => "Dropping malformed packet"
  | handlerFailed _ => "Handler failed"
  | replyNotEncoded .. => "Failed to encode reply"
  | payloadDump text => text
  | operationCompleted _ => "Operation completed"
  | metricsSnapshot _ => "Packet metrics snapshot"

def fields : Event → List (String × FieldValue)
  | packetDecoded opcode size | packetEncoded opcode size =>
    [("opcode", .text opcode.display), ("size", .number size)]
  | trailingData opcode read size trailing =>
    [("opcode", .text opcode.display), ("read", .number read), ("size", .number size),
      ("trailing", .number trailing)]
  | unknownOpcode raw => [("opcode", .number raw.toNat)]
  | packetDropped cause | handlerFailed cause => [("error", .text cause.message)]
  | replyNotEncoded cause opcode =>
    [("error", .text cause.message), ("opcode", .text opcode.display)]
  | payloadDump _ => []
  | operationCompleted operation => [("operation", .text operation)]
  | metricsSnapshot m =>
    [("packets_received", .number m.packetsReceived.toNat),
      ("packets_sent", .number m.packetsSent.toNat),
      ("bytes_received", .number m.bytesReceived.toNat),
      ("bytes_sent", .number m.bytesSent.toNat),
      ("position_errors", .number m.positionErrors.toNat),
      ("invalid_value_errors", .number m.invalidValueErrors.toNat),
      ("capacity_errors", .number m.capacityErrors.toNat),
      ("unknown_opcodes", .number m.unknownOpcodes.toNat),
      ("unhandled_opcodes", .number m.unhandledOpcodes.toNat),
      ("handler_errors", .number m.handlerErrors.toNat)]

end Event

/-- The events kept so far, and the most verbose level that is kept. -/
structure Journal where
  verbosity : Option Level
  events : List Event
deriving DecidableEq

namespace Journal

/-- Nothing kept yet. -/
def opened (verbosity : Option Level) : Journal := ⟨verbosity, []⟩

/-- Events of this level are kept. -/
def enabled (j : Journal) (l : Level) : Bool := j.verbosity.any (·.enables l)

/-- Keeps the event if its level is enabled. -/
def record (j : Journal) (e : Event) : Journal :=
  if j.enabled e.level then { j with events := j.events ++ [e] } else j

/-- Records events in turn. -/
def recordAll (j : Journal) (es : List Event) : Journal := es.foldl record j

end Journal

end PacketWire
