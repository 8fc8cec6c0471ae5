/-
The order and the widths in which messages travel.

Nothing in a payload describes itself: both sides agree on these layouts. One
bit says whether a map carries a window; the rest of its byte is padding.

    status query, enable, query nodes   guid
    activate                            guid, node u32, ground mount u32, flying mount u32
    request early landing               (empty)
    node status                         status u8, guid
    show nodes                          window? bit, (guid, node i32)?, can land mask, can use mask
    new path                            path i32
    activate reply                      reply u8
-/
import PacketWire.Taxi.Message

namespace PacketWire

open Buffer

/-- Reads the fields of the client message with this opcode. -/
def ClientMessage.read : ClientOpcode → BufferM ClientMessage
  | .taxiNodeStatusQuery => return .taxiNodeStatusQuery (← Guid.read)
  | .enableTaxiNode => return .enableTaxiNode (← Guid.read)
  | .taxiQueryAvailableNodes => return .taxiQueryAvailableNodes (← Guid.read)
  | .activateTaxi => do
    let vendor ← Guid.read
    let node ← Buffer.read .u32
    let groundMount ← Buffer.read .u32
    let flyingMount ← Buffer.read .u32
    return .activateTaxi vendor node groundMount flyingMount
  | .taxiRequestEarlyLanding => return .taxiRequestEarlyLanding

/-- Reads where a map opens. -/
def MapWindow.read : BufferM MapWindow := do
  let unit ← Guid.read
  let currentNode ← Buffer.read .i32
  return ⟨unit, currentNode⟩

/-- Reads the fields of the server message with this opcode. -/
def ServerMessage.read : ServerOpcode → BufferM ServerMessage
  | .taxiNodeStatus => do
    let status ← Buffer.read .u8
    return .taxiNodeStatus status (← Guid.read)
  | .showTaxiNodes => do
    let hasWindow ← readBit
    modify dropUnread
    let window ← if hasWindow then some <$> MapWindow.read else pure none
    let canLand ← NodeMask.read
    let canUse ← NodeMask.read
    return .showTaxiNodes window canLand canUse
  | .newTaxiPath => return .newTaxiPath (← Buffer.read .i32)
  | .activateTaxiReply => return .activateTaxiReply (← Buffer.read .u8)

/-- Reads the fields of the message with this opcode. -/
def Message.read : Opcode → BufferM Message
  | .client op => .client <$> ClientMessage.read op
  | .server op => .server <$> ServerMessage.read op

namespace ServerMessage

/-- The payload size to make room for. -/
def sizeHint : ServerOpcode → Nat
  | .taxiNodeStatus => 1 + Guid.size
  | .showTaxiNodes => 1 + Guid.size + 4 + 2 * NodeMask.size
  | .newTaxiPath => 4
  | .activateTaxiReply => 1

/-- Writes the fields of a message. -/
def write : ServerMessage → BufferM Unit
  | taxiNodeStatus status unit => do
    Buffer.write .u8 status
    unit.write
  | showTaxiNodes window canLand canUse => do
    writeBit window.isSome
    flushBits
    if let some ⟨unit, currentNode⟩ := window then
      unit.write
      Buffer.write .i32 currentNode
    canLand.write
    canUse.write
  | newTaxiPath path => Buffer.write .i32 path
  | activateTaxiReply reply => Buffer.write .u8 reply

end ServerMessage

end PacketWire
