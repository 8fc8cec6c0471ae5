/-
Overwriting what is stored, away from the write cursor.

A patch replaces bytes or bits that exist. It never grows the buffer and
moves no cursor; bits of a byte that is being read bit by bit were taken when
the byte was, so a patch does not reach them.
-/
import PacketWire.Buffer.Write

namespace PacketWire.Buffer

/-- Replaces the stored bytes from `pos` on. -/
def writeAt (pos : Nat) (src : List UInt8) : BufferM Unit := do
  let b ← get
  if src.isEmpty then
    refuse (.zeroSizedWrite pos b.size)
  if b.size < pos + src.length then
    refuse (.position pos b.size src.length)
  store pos (pos + src.length) src

/-- Replaces a stored scalar. -/
def put (pos : Nat) (t : ScalarType) (value : t.Value) : BufferM Unit := do
  writeAt pos (← spell t value)

/-- Replaces the stored bit at `pos`: a mask finds it in its byte, counted from the top. -/
def putBit (pos : Nat) (bit : Bool) : BufferM Unit := do
  let shift ← subtract 7 (pos % 8)
  demand (shift < 8)
  let b ← get
  demand (pos / 8 < b.size)
  set { b with contents := Bits.patch b.contents pos [bit] }

/-- Replaces the stored bits from `pos` on by those of `value` below `count`, the highest first. -/
def putLowBits (pos : Nat) (value : UInt64) : Nat → BufferM Unit
  | 0 => pure ()
  | count + 1 => do
    putBit pos (← bitOfWord value count)
    putLowBits (pos + 1) value count

/-- Replaces the `count` stored bits from bit `pos` on by the low bits of `value`. -/
def putBits (pos : Nat) (value : UInt64) (count : Nat) : BufferM Unit := do
  checkBitCount count
  let b ← get
  if 8 * b.size < pos + count then
    refuse (.position pos (8 * b.size) count)
  putLowBits pos value count

end PacketWire.Buffer
