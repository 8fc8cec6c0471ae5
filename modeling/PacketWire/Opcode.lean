/-
The catalogue of opcodes.

Every opcode belongs to one direction: client opcodes only ever arrive at the
server, server opcodes only ever leave it. A number means nothing without its
direction.
-/
import PacketWire.Error

namespace PacketWire

open Text

/-- Which way a packet travels. -/
inductive Direction
  | clientToServer
  | serverToClient
deriving DecidableEq

/-- What a client may send. -/
inductive ClientOpcode
  | taxiNodeStatusQuery
  | enableTaxiNode
  | taxiQueryAvailableNodes
  | activateTaxi
  | taxiRequestEarlyLanding
deriving DecidableEq

/-- What the server may send. -/
inductive ServerOpcode
  | taxiNodeStatus
  | showTaxiNodes
  | newTaxiPath
  | activateTaxiReply
deriving DecidableEq

namespace ClientOpcode

def all : List ClientOpcode :=
  [taxiNodeStatusQuery, enableTaxiNode, taxiQueryAvailableNodes, activateTaxi, taxiRequestEarlyLanding]

/-- The number on the wire. -/
def raw : ClientOpcode → UInt32
  | taxiNodeStatusQuery => 0x34A0
  | enableTaxiNode => 0x34A1
  | taxiQueryAvailableNodes => 0x34A2
  | activateTaxi => 0x34A3
  | taxiRequestEarlyLanding => 0x34A4

/-- The name in logs. -/
def name : ClientOpcode → String
  | taxiNodeStatusQuery => "CMSG_TAXI_NODE_STATUS_QUERY"
  | enableTaxiNode => "CMSG_ENABLE_TAXI_NODE"
  | taxiQueryAvailableNodes => "CMSG_TAXI_QUERY_AVAILABLE_NODES"
  | activateTaxi => "CMSG_ACTIVATE_TAXI"
  | taxiRequestEarlyLanding => "CMSG_TAXI_REQUEST_EARLY_LANDING"

/-- The client opcode with this number. -/
def ofRaw (raw : UInt32) : Except CodecError ClientOpcode :=
  match all.find? (·.raw = raw) with
  | some op => .ok op
  | none => .error (.unknownOpcode raw)

end ClientOpcode

namespace ServerOpcode

def all : List ServerOpcode := [taxiNodeStatus, showTaxiNodes, newTaxiPath, activateTaxiReply]

/-- The number on the wire. -/
def raw : ServerOpcode → UInt32
  | taxiNodeStatus => 0x2670
  | showTaxiNodes => 0x2671
  | newTaxiPath => 0x2672
  | activateTaxiReply => 0x2673

/-- The name in logs. -/
def name : ServerOpcode → String
  | taxiNodeStatus => "SMSG_TAXI_NODE_STATUS"
  | showTaxiNodes => "SMSG_SHOW_TAXI_NODES"
  | newTaxiPath => "SMSG_NEW_TAXI_PATH"
  | activateTaxiReply => "SMSG_ACTIVATE_TAXI_REPLY"

/-- The server opcode with this number. -/
def ofRaw (raw : UInt32) : Except CodecError ServerOpcode :=
  match all.find? (·.raw = raw) with
  | some op => .ok op
  | none => .error (.unknownOpcode raw)

end ServerOpcode

/-- An opcode of either direction. -/
inductive Opcode
  | client (op : ClientOpcode)
  | server (op : ServerOpcode)
deriving DecidableEq

namespace Opcode

def direction : Opcode → Direction
  | client _ => .clientToServer
  | server _ => .serverToClient

def raw : Opcode → UInt32
  | client op => op.raw
  | server op => op.raw

def name : Opcode → String
  | client op => op.name
  | server op => op.name

/-- The opcode that a number means in a direction. -/
def ofRaw (direction : Direction) (raw : UInt32) : Except CodecError Opcode :=
  match direction with
  | .clientToServer => (ClientOpcode.ofRaw raw).map client
  | .serverToClient => (ServerOpcode.ofRaw raw).map server

/-- The name, and the number in hexadecimal. -/
def display (op : Opcode) : String :=
  s!"{op.name} (0x" ++ String.ofList (Hex.padded .upper 4 op.raw.toNat) ++ ")"

end Opcode

end PacketWire
