/-
The 128-bit identifier of a world entity.

It is one number in two halves. The order compares the high halves first, the
text spells all thirty-two digits, and on the wire the sixteen bytes are the
number's little-endian form: the low half, then the high half.
-/
import PacketWire.Buffer.Read
import PacketWire.Buffer.Write

namespace PacketWire

open Text

structure Guid where
  high : UInt64
  low : UInt64
deriving DecidableEq

namespace Guid

/-- The identifier of nothing. -/
def empty : Guid := ⟨0, 0⟩

def isEmpty (g : Guid) : Bool := g = empty

/-- The identifier as one number. -/
def toNat (g : Guid) : Nat := g.high.toNat * UInt64.size + g.low.toNat

/-! ## Order -/

instance : LT Guid := ⟨fun a b => a.high < b.high ∨ a.high = b.high ∧ a.low < b.low⟩

instance (a b : Guid) : Decidable (a < b) :=
  inferInstanceAs (Decidable (a.high < b.high ∨ a.high = b.high ∧ a.low < b.low))

/-- The identifiers in ascending order, each once. -/
def ascending (guids : List Guid) : List Guid :=
  (guids.mergeSort fun a b => !decide (b < a)).eraseReps

/-! ## Text -/

/-- The high half and the low half, sixteen digits each. -/
def display (g : Guid) : String :=
  "0x" ++ String.ofList (Hex.fixed .upper 16 g.high.toNat ++ Hex.fixed .upper 16 g.low.toNat)

/-! ## On the wire -/

/-- The number of bytes on the wire. -/
def size : Nat := 16

def encode (g : Guid) : List UInt8 :=
  LittleEndian.encode 8 g.low.toNat ++ LittleEndian.encode 8 g.high.toNat

def decode (bytes : List UInt8) : Guid where
  high := UInt64.ofNat (LittleEndian.decode (bytes.drop 8))
  low := UInt64.ofNat (LittleEndian.decode (bytes.take 8))

/-- Takes an identifier; a short buffer keeps both halves. -/
def read : BufferM Guid := do
  return decode (← Buffer.readBytes size)

def write (g : Guid) : BufferM Unit := Buffer.append g.encode

end Guid

end PacketWire
