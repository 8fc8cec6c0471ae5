/-
A set of taxi nodes, as the mask that travels.

Nodes are numbered from one; node `n` is bit `n - 1` of a 64-bit word, and the
word travels little-endian. A number outside the mask is never in the set.
-/
import PacketWire.Buffer.Read
import PacketWire.Buffer.Write

namespace PacketWire

/-- The number of nodes that a mask can hold. -/
def taxiNodeCount : Nat := 64

structure NodeMask where
  word : BitVec 64
deriving DecidableEq

namespace NodeMask

def empty : NodeMask := ⟨0⟩

/-- A node that a mask can hold. -/
def inRange (node : Nat) : Bool := 1 ≤ node && node ≤ taxiNodeCount

def contains (mask : NodeMask) (node : Nat) : Bool :=
  inRange node && mask.word.getLsbD (node - 1)

/-- The set with `node`, and whether a mask can hold it; a number outside the
mask changes nothing. -/
def insert (mask : NodeMask) (node : Nat) : Bool × NodeMask :=
  if inRange node then (true, ⟨mask.word ||| BitVec.twoPow 64 (node - 1)⟩) else (false, mask)

/-- The set without `node`. -/
def erase (mask : NodeMask) (node : Nat) : NodeMask :=
  if inRange node then ⟨mask.word &&& ~~~(BitVec.twoPow 64 (node - 1))⟩ else mask

def isEmpty (mask : NodeMask) : Bool := mask.word = 0

/-- The nodes of the set in ascending order. -/
def nodes (mask : NodeMask) : List Nat :=
  ((List.range taxiNodeCount).map (· + 1)).filter mask.contains

/-! ## On the wire -/

/-- The number of bytes on the wire. -/
def size : Nat := 8

def encode (mask : NodeMask) : List UInt8 := LittleEndian.encode size mask.word.toNat

def decode (bytes : List UInt8) : NodeMask := ⟨BitVec.ofNat 64 (LittleEndian.decode bytes)⟩

def read : BufferM NodeMask := do
  return decode (← Buffer.readBytes size)

def write (mask : NodeMask) : BufferM Unit := Buffer.append mask.encode

end NodeMask

end PacketWire
