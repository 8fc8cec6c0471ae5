/-
Counters over the packets that pass a dispatcher.

Counters are 64-bit words and wrap. `codecError` counts a cause under its
category; the four categories are those of `CodecError.isMalformedInput`, and
any other cause counts nowhere.
-/
import PacketWire.Error

namespace PacketWire

structure Metrics where
  /-- Inbound packets handed to the dispatcher. -/
  packetsReceived : UInt64
  /-- Outbound packets made from replies. -/
  packetsSent : UInt64
  /-- Bytes of inbound payloads. -/
  bytesReceived : UInt64
  /-- Bytes of outbound payloads. -/
  bytesSent : UInt64
  /-- Reads that ran out of bytes. -/
  positionErrors : UInt64
  /-- Reads that found no value of the kind. -/
  invalidValueErrors : UInt64
  /-- Payloads and writes that the ceiling refused. -/
  capacityErrors : UInt64
  /-- Numbers that are no client opcode. -/
  unknownOpcodes : UInt64
  /-- Messages that no handler was registered for. -/
  unhandledOpcodes : UInt64
  /-- Handlers that failed. -/
  handlerErrors : UInt64
deriving DecidableEq

namespace Metrics

def zero : Metrics := ⟨0, 0, 0, 0, 0, 0, 0, 0, 0, 0⟩

/-- Counts an inbound packet of `bytes` bytes. -/
def received (m : Metrics) (bytes : UInt64) : Metrics :=
  { m with packetsReceived := m.packetsReceived + 1, bytesReceived := m.bytesReceived + bytes }

/-- Counts an outbound packet of `bytes` bytes. -/
def sent (m : Metrics) (bytes : UInt64) : Metrics :=
  { m with packetsSent := m.packetsSent + 1, bytesSent := m.bytesSent + bytes }

/-- Counts a failure of the codec under its category. -/
def codecError (m : Metrics) : CodecError → Metrics
  | .position .. => { m with positionErrors := m.positionErrors + 1 }
  | .invalidValue .. => { m with invalidValueErrors := m.invalidValueErrors + 1 }
  | .capacityExceeded .. => { m with capacityErrors := m.capacityErrors + 1 }
  | .unknownOpcode _ => { m with unknownOpcodes := m.unknownOpcodes + 1 }
  | _ => m

/-- Counts a message that nobody handles. -/
def unhandled (m : Metrics) : Metrics := { m with unhandledOpcodes := m.unhandledOpcodes + 1 }

/-- Counts a handler's failure. -/
def handlerError (m : Metrics) : Metrics := { m with handlerErrors := m.handlerErrors + 1 }

/-- All packets and writes that the codec refused. -/
def malformedTotal (m : Metrics) : UInt64 :=
  m.positionErrors + m.invalidValueErrors + m.capacityErrors + m.unknownOpcodes

end Metrics

end PacketWire
