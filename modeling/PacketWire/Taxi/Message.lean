/-
What flight masters and their passengers say to each other.

A client asks for the status of a flight master, opens its map, asks for a
flight or ends one; the server answers with statuses, the map, a path taken
and the outcome of a request. `Message` is either side's message, and each
has the opcode of its kind.
-/
import PacketWire.Guid
import PacketWire.NodeMask
import PacketWire.Opcode

namespace PacketWire

/-- What a flight master is to the player. -/
inductive TaxiStatus
  | none
  | unlearned
  | learned
  | notEligible
deriving DecidableEq

namespace TaxiStatus

def all : List TaxiStatus := [none, unlearned, learned, notEligible]

/-- The number on the wire. -/
def code : TaxiStatus → UInt8
  | none => 0
  | unlearned => 1
  | learned => 2
  | notEligible => 3

def ofCode? (code : UInt8) : Option TaxiStatus := all.find? (·.code = code)

def name : TaxiStatus → String
  | none => "None"
  | unlearned => "Unlearned"
  | learned => "Learned"
  | notEligible => "NotEligible"

end TaxiStatus

/-- How a request for a flight ends. -/
inductive ActivationResult
  | ok
  | unspecifiedServerError
  | noSuchPath
  | notEnoughMoney
  | tooFarAway
  | noVendorNearby
  | notVisited
  | playerBusy
  | playerAlreadyMounted
  | playerShapeshifted
  | playerMoving
  | sameNode
  | notStanding
deriving DecidableEq

namespace ActivationResult

def all : List ActivationResult :=
  [ok, unspecifiedServerError, noSuchPath, notEnoughMoney, tooFarAway, noVendorNearby, notVisited,
    playerBusy, playerAlreadyMounted, playerShapeshifted, playerMoving, sameNode, notStanding]

/-- The number on the wire. -/
def code : ActivationResult → UInt8
  | ok => 0
  | unspecifiedServerError => 1
  | noSuchPath => 2
  | notEnoughMoney => 3
  | tooFarAway => 4
  | noVendorNearby => 5
  | notVisited => 6
  | playerBusy => 7
  | playerAlreadyMounted => 8
  | playerShapeshifted => 9
  | playerMoving => 10
  | sameNode => 11
  | notStanding => 12

def ofCode? (code : UInt8) : Option ActivationResult := all.find? (·.code = code)

def name : ActivationResult → String
  | ok => "Ok"
  | unspecifiedServerError => "UnspecifiedServerError"
  | noSuchPath => "NoSuchPath"
  | notEnoughMoney => "NotEnoughMoney"
  | tooFarAway => "TooFarAway"
  | noVendorNearby => "NoVendorNearby"
  | notVisited => "NotVisited"
  | playerBusy => "PlayerBusy"
  | playerAlreadyMounted => "PlayerAlreadyMounted"
  | playerShapeshifted => "PlayerShapeshifted"
  | playerMoving => "PlayerMoving"
  | sameNode => "SameNode"
  | notStanding => "NotStanding"

end ActivationResult

/-- What a client says. -/
inductive ClientMessage
  /-- Asks what a flight master is to the player. -/
  | taxiNodeStatusQuery (unit : Guid)
  /-- Asks for a flight master's node to be learned. -/
  | enableTaxiNode (unit : Guid)
  /-- Asks for the map of a flight master. -/
  | taxiQueryAvailableNodes (unit : Guid)
  /-- Asks for a flight from the vendor's node to `node`. -/
  | activateTaxi (vendor : Guid) (node groundMount flyingMount : UInt32)
  /-- Asks to land at the next node. -/
  | taxiRequestEarlyLanding
deriving DecidableEq

def ClientMessage.opcode : ClientMessage → ClientOpcode
  | taxiNodeStatusQuery _ => .taxiNodeStatusQuery
  | enableTaxiNode _ => .enableTaxiNode
  | taxiQueryAvailableNodes _ => .taxiQueryAvailableNodes
  | activateTaxi .. => .activateTaxi
  | taxiRequestEarlyLanding => .taxiRequestEarlyLanding

/-- Where a map opens: at which flight master, and at which node. -/
structure MapWindow where
  unit : Guid
  currentNode : Int32
deriving DecidableEq

/-- What the server says. -/
inductive ServerMessage
  /-- What a flight master is to the player, as a status code. -/
  | taxiNodeStatus (status : UInt8) (unit : Guid)
  /-- The map: the nodes that the player knows, and those that can be flown to now. -/
  | showTaxiNodes (window : Option MapWindow) (canLand canUse : NodeMask)
  /-- A path was taken. -/
  | newTaxiPath (path : Int32)
  /-- How a request for a flight ended, as a result code. -/
  | activateTaxiReply (reply : UInt8)
deriving DecidableEq

def ServerMessage.opcode : ServerMessage → ServerOpcode
  | taxiNodeStatus .. => .taxiNodeStatus
  | showTaxiNodes .. => .showTaxiNodes
  | newTaxiPath _ => .newTaxiPath
  | activateTaxiReply _ => .activateTaxiReply

/-- A message of either side. -/
inductive Message
  | client (m : ClientMessage)
  | server (m : ServerMessage)
deriving DecidableEq

def Message.opcode : Message → Opcode
  | client m => .client m.opcode
  | server m => .server m.opcode

end PacketWire
