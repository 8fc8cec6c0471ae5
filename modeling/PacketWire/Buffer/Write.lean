/-
Writing at the write cursor: bits, and byte runs that flush the bits first.

Every write checks the ceiling for all it is about to store before it stores
anything.
-/
import PacketWire.Buffer.Basic
import PacketWire.Scalar
import PacketWire.Text.Utf8

namespace PacketWire.Buffer

open Text

/-- Refuses a write that would take the write cursor past the ceiling. -/
def checkLimit (extra : Nat) : BufferM Unit := do
  let b ← get
  if b.limit < b.wpos + extra then
    refuse (.capacityExceeded (b.wpos + extra) b.limit)

/-! ## Storing -/

/-- Copies `src` over the stored bytes from `start` to `stop`, which must be as many. -/
def store (start stop : Nat) (src : List UInt8) : BufferM Unit := do
  let b ← get
  demand (start ≤ stop ∧ stop ≤ b.size ∧ stop - start = src.length)
  set { b with contents := overwrite b.contents start src }

/-- At least `total` bytes stored, the new ones zeros, with room made for them. -/
def extend (b : Buffer) (total : Nat) : Buffer :=
  { b with
    contents := b.contents ++ List.replicate (total - b.size) 0
    capacity := grow b.capacity b.size total }

/-- Stores `src` at the write cursor, over what is there, and moves past it.
Bytes that the cursor passed over without storing them are zeros. -/
def appendRaw (src : List UInt8) : BufferM Unit := do
  let b ← get
  let stop := b.wpos + src.length
  modify (·.extend stop)
  store b.wpos stop src
  modify fun b => { b with wpos := stop }

/-! ## Bits -/

/-- Stores `bits` as one byte and leaves none pending. -/
def appendByte (bits : List Bool) : BufferM Unit := do
  modify fun b => { b with pending := [] }
  appendRaw [Bits.toByte bits]

/-- Pads the pending bits to a byte and stores it. -/
def flushBits : BufferM Unit := do
  let b ← get
  if b.hasPendingBits then
    checkLimit 1
    appendByte b.pending

/-- Adds one bit. The eighth makes a byte, which needs room under the ceiling. -/
def writeBit (bit : Bool) : BufferM Unit := do
  let b ← get
  if b.vacant = 1 then
    checkLimit 1
  let shift ← subtract b.vacant 1
  demand (bit → shift < 8)
  let bits := b.pending ++ [bit]
  if shift = 0 then
    appendByte bits
  else
    set { b with pending := bits }

/-- Adds the bits of `value` below `count`, the highest first. -/
def writeLowBits (value : UInt64) : Nat → BufferM Unit
  | 0 => pure ()
  | count + 1 => do
    writeBit (← bitOfWord value count)
    writeLowBits value count

/-- Adds the low `count` bits of `value`, most significant first. -/
def writeBits (value : UInt64) (count : Nat) : BufferM Unit := do
  checkBitCount count
  let b ← get
  checkLimit ((b.pending.length + count) / 8)
  writeLowBits value count

/-! ## Bytes -/

/-- Flushes the bits and stores a run of bytes; an empty run is refused. -/
def append (src : List UInt8) : BufferM Unit := do
  let b ← get
  if src.isEmpty then
    refuse (.zeroSizedWrite b.wpos b.size)
  checkLimit (b.flushSize + src.length)
  flushBits
  appendRaw src

/-- Stores what another buffer holds up to its write cursor; nothing if that
stands at the start. -/
def appendBuffer (source : Buffer) : BufferM Unit :=
  if source.wpos = 0 then pure ()
  else if source.size < source.wpos then throw .overrun
  else append (source.contents.take source.wpos)

/-- A scalar's bytes, spelled at the front of a run as long as the longest scalar. -/
def spell (t : ScalarType) (value : t.Value) : BufferM (List UInt8) := do
  demand (t.size ≤ ScalarType.maxSize)
  return t.encode value

/-- Stores a scalar. -/
def write (t : ScalarType) (value : t.Value) : BufferM Unit := do
  append (← spell t value)

/-- Stores the bytes of a text; an empty text stores nothing and flushes nothing. -/
def writeString (text : String) : BufferM Unit :=
  if text.isEmpty then pure () else append (Utf8.encode text)

/-- Stores the bytes of a text and a zero after them. -/
def writeTerminated (text : String) : BufferM Unit := do
  let b ← get
  checkLimit (b.flushSize + (Utf8.encode text).length + 1)
  writeString text
  write .u8 0

/-! ## The write cursor -/

/-- Moves the write cursor, back to stored bytes or to their end. Pending bits
are flushed where it stood, once the new place is known to be one: not before
the read cursor, and not past the stored bytes and the pending one. -/
def setWritePos (pos : Nat) : BufferM Unit := do
  let b ← get
  let stop := b.size + b.flushSize
  if pos < b.rpos ∨ stop < pos then
    refuse (.position pos stop 0)
  flushBits
  modify fun b => { b with wpos := pos }

end PacketWire.Buffer
