/-
An opcode and the payload that belongs to it.

Decoding consumes a packet and gives the message of its schema; encoding makes
a packet of a message. Both also say what they log, at whatever level.
-/
import PacketWire.Log.Event
import PacketWire.Taxi.Schema

namespace PacketWire

structure Packet where
  opcode : Opcode
  buffer : Buffer
deriving DecidableEq

namespace Packet

/-- A received payload under a ceiling of its own. -/
def inboundWithLimit (opcode : Opcode) (payload : List UInt8) (limit : Nat) :
    Except CodecError Packet :=
  (Buffer.ofBytesWithLimit payload limit).map (⟨opcode, ·⟩)

/-- A received payload. -/
def inbound (opcode : Opcode) (payload : List UInt8) : Except CodecError Packet :=
  inboundWithLimit opcode payload maxPayloadSize

/-- An empty packet to write to, under a ceiling of its own. -/
def outboundWithLimit (opcode : Opcode) (sizeHint limit : Nat) : Packet :=
  ⟨opcode, .withLimit sizeHint limit⟩

/-- An empty packet to write to. -/
def outbound (opcode : Opcode) (sizeHint : Nat) : Packet :=
  outboundWithLimit opcode sizeHint maxPayloadSize

/-! ## Decoding -/

/-- What is logged about a packet that a schema was read from; `buffer` is
what the reader left. -/
def decodedEvents (opcode : Opcode) (buffer : Buffer) (warnOnTrailing : Bool) : List Event :=
  (if warnOnTrailing && 0 < buffer.remaining then
    [.trailingData opcode buffer.rpos buffer.size buffer.remaining]
  else []) ++ [.packetDecoded opcode buffer.size]

/-- Reads the packet as the schema of `opcode`, which must be its own. Bytes
that the schema leaves are no failure. -/
def decodeAs {α : Type} (p : Packet) (opcode : Opcode) (schema : BufferM α) (warnOnTrailing : Bool) :
    Except Failure α × List Event :=
  if p.opcode = opcode then
    match schema.run p.buffer with
    | .ok value buffer => (.ok value, decodedEvents p.opcode buffer warnOnTrailing)
    | .error failure _ => (.error failure, [])
  else (.error (.refused (.unexpectedOpcode opcode.display p.opcode.display)), [])

end Packet

/-- Reads a packet as the message of `opcode`. -/
def Message.decode (opcode : Opcode) (p : Packet) (warnOnTrailing : Bool) :
    Except Failure Message × List Event :=
  p.decodeAs opcode (Message.read opcode) warnOnTrailing

/-- Reads a packet as the client message of its own opcode. The server does
not read its own traffic. -/
def ClientMessage.decode (p : Packet) (warnOnTrailing : Bool) :
    Except Failure ClientMessage × List Event :=
  match p.opcode with
  | .client op => p.decodeAs (.client op) (ClientMessage.read op) warnOnTrailing
  | .server _ => (.error (.refused .unexpectedMessage), [])

/-! ## Encoding -/

/-- Writes a message into a packet of its own, under a ceiling. -/
def ServerMessage.encodeWithLimit (m : ServerMessage) (limit : Nat) :
    Except Failure Packet × List Event :=
  let opcode := Opcode.server m.opcode
  let p := Packet.outboundWithLimit opcode (sizeHint m.opcode) limit
  match (do m.write; Buffer.flushBits : BufferM Unit).run p.buffer with
  | .ok () buffer => (.ok { p with buffer }, [.packetEncoded opcode buffer.size])
  | .error failure _ => (.error failure, [])

/-- Writes a message into a packet of its own. -/
def ServerMessage.encode (m : ServerMessage) : Except Failure Packet × List Event :=
  m.encodeWithLimit maxPayloadSize

end PacketWire
